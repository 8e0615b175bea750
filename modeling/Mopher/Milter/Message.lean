import Mopher.Milter.Buffers
import Mopher.Symbol
import Mopher.Memdb.Vp

/-!
# The message that scanners get

Model of `milter_dump_message`, with which the callbacks of symbols copy the message
into a buffer while the ACL of `milter_eom` runs.  It copies the header with
`strcpy`.  Without a call of `milter_header` there is none, and `strcpy` reads from
the null pointer; an empty body is no problem, because `memcpy` has nothing to copy.
-/

set_option autoImplicit false

namespace Mopher.Milter

open Blocks

/-! ## Copying the message -/

/-- The mailspec with what the data of `headers` and `body` points at. -/
structure Mailspec where
  table : Table
  headers : Option Nat
  body : Option Nat

/-- The symbols without callback, as `milter_init` registers them. -/
def milterRegistry (name : String) : Option (AclSymbol Table Value) :=
  (milterSymbols.lookup name).map fun mask => .symbol mask none false

/-- `*p` where the data is a number. -/
def numberOf : Value → Option Int
  | .scalar (.int n) => some n
  | _ => none

def tableOps : MailspecOps Table Value where
  lookup := vtableLookup
  setNull := vtableSetNull
  stage table := ((vtableGet table "stage").bind numberOf).map Int.toNat

/-- The data of a symbol. -/
def dataOf (value : Value) (pointer : Option Nat) : Option Nat :=
  if value.isNull then none else pointer

/-- The conversion of a `long` to an `int`. -/
def intOfLong (n : Int) : Int := n.bmod (2 ^ 32)

/-- The end of `milter_dump_message`, behind the test of the size. -/
def buildMessage (heap : Heap) (address offset : Nat) (header body : Option Nat)
    (headerSize bodySize total : Int) : Option (Int × Heap) := do
  let headerSize ← headerSize.toNat?
  let bodySize ← bodySize.toNat?
  let last ← total.toNat?
  let heap ← strcpy heap address offset header
  let heap ← strcat heap address offset [13, 10]
  let heap ← memcpy heap address (offset + headerSize + 2) body bodySize
  let heap ← write heap address (offset + last) [0]
  return (total, heap)

/-- `milter_dump_message` behind the lookup of the symbols. -/
def dumpMessage (heap : Heap) (address offset : Nat) (size : Int) (header body : Option Nat)
    (headerSize bodySize : Int) : Option (Int × Heap) :=
  let total := intOfLong (headerSize + 2 + bodySize)
  if size < total + 1 then some (-1, heap)
  else buildMessage heap address offset header body headerSize bodySize total

/-- `acl_symbol_dereference`: the variables of the names. -/
def aclSymbolDereference (table : Table) : List String → List (Option Value)
  | [] => []
  | name :: rest =>
      (aclSymbolGet tableOps milterRegistry table name).2 ::
        aclSymbolDereference (aclSymbolGet tableOps milterRegistry table name).1 rest

/-- `milter_dump_message` into the block `address` from `offset` on.  There is no
result where it reads or writes outside of a block. -/
def milterDumpMessage (heap : Heap) (address offset : Nat) (size : Int) (mailspec : Mailspec) :
    Option (Int × Heap) :=
  match aclSymbolDereference mailspec.table ["headers", "headers_size", "body", "body_size"] with
  | [some headers, some headersSize, some body, some bodySize] =>
      (numberOf headersSize).bind fun headerSize =>
        (numberOf bodySize).bind fun bodySize =>
          dumpMessage heap address offset size (dataOf headers mailspec.headers)
            (dataOf body mailspec.body) headerSize bodySize
  | _ => some (-1, heap)

/-! ## The message -/

def headersText (headers : List (CString × CString)) : Bytes :=
  headers.flatMap fun header => headerLine header.1.text header.2.text

def messageText (headers : List (CString × CString)) (chunks : List Bytes) : Bytes :=
  headersText headers ++ [13, 10] ++ chunks.flatten

/-- `message_size`. -/
def messageLength (headers : List (CString × CString)) (chunks : List Bytes) : Nat :=
  (headersText headers).length + chunks.flatten.length + 2

theorem headersText_terminated (headers : List (CString × CString)) :
    (0 : UInt8) ∉ headersText headers := by
  intro member
  obtain ⟨header, _, inside⟩ := List.mem_flatMap.mp member
  simp only [headerLine, List.mem_append, List.mem_cons, List.not_mem_nil, or_false] at inside
  rcases inside with ((name | colon) | value) | ending
  · exact header.1.terminated name
  · revert colon
    decide
  · exact header.2.terminated value
  · revert ending
    decide

/-- The callbacks of a message between `milter_data` and `milter_eom`. -/
def messageCallbacks (headers : List (CString × CString)) (chunks : List Bytes) : List Callback :=
  headers.map (fun header => .header header.1.text header.2.text) ++ .eoh :: chunks.map .body

/-- Whether some of a message is collected after the callback. -/
def collecting (begun : Bool) (call : Call) : Bool :=
  match call.callback with
  | .header _ _ => true
  | .body _ => true
  | .eom => false
  | .abort => false
  | _ => begun

/-- Whether a message has begun that is not ended yet. -/
def messageOpen (calls : List Call) : Bool := calls.foldl collecting false

/-- What the ACL of `milter_eom` finds after the given callbacks of a connection. -/
def AtEom (junk : Nat → Nat → UInt8) (ctx : Nat) (connect : Connect) (calls : List Call) (eom : Call)
    (mp : MilterPriv) (b : Buffers) : Prop :=
  ((milterSession ctx connect calls).bind fun before => prepare ctx eom before) = some (mp, true) ∧
    ((buffersRun junk buffersCreate calls).bind fun before =>
      prepareBuffers junk before eom.callback) = some b

/-- The sizes are those of the message, and copying it into a buffer of
`message_size + 1` bytes leaves everything around the buffer. -/
structure HandedOver (headers : List (CString × CString)) (chunks : List Bytes) (table : Table)
    (b : Buffers) : Prop where
  headersSize : table "headers_size" = some (.int (headersText headers).length)
  bodySize : table "body_size" = some (.int chunks.flatten.length)
  messageSize : table "message_size" = some (.int (messageLength headers chunks))
  dump : ∀ front buffer back : Bytes, buffer.length = messageLength headers chunks + 1 →
    milterDumpMessage (alloc b.heap (front ++ buffer ++ back)) b.heap.length front.length buffer.length
        ⟨table, b.headers, b.bodySymbol⟩ =
      some ((messageLength headers chunks : Int),
        alloc b.heap (front ++ (messageText headers chunks ++ [0]) ++ back))

section Build
variable {heap : Heap} {address : Nat}

theorem exists_split (l : Bytes) {n : Nat} (enough : n ≤ l.length) :
    ∃ front back, l = front ++ back ∧ front.length = n :=
  ⟨l.take n, l.drop n, (List.take_append_drop n l).symm, List.length_take_of_le enough⟩

/-- The header is copied from its block, then the empty line, the body and the NUL. -/
theorem buildMessage_spec {header body : Bytes} {source : Nat} {bodySource : Option Nat}
    (front buffer back : Bytes) (target : block heap address = some (front ++ buffer ++ back))
    (size : buffer.length = header.length + body.length + 3) (string : (0 : UInt8) ∉ header)
    (held : block heap source = some (header ++ [0]))
    (heldBody : body ≠ [] → ∃ pointer, bodySource = some pointer ∧ address ≠ pointer ∧
      block heap pointer = some (body ++ [0])) :
    buildMessage heap address front.length (some source) bodySource header.length body.length
        ((header.length + body.length + 2 : Nat) : Int) =
      some (((header.length + body.length + 2 : Nat) : Int),
        heap.set address (some (front ++ (header ++ [13, 10] ++ body ++ [0]) ++ back))) := by
  have inside := lt_length target
  -- the parts of the buffer that are written one after the other
  obtain ⟨first, rest, rfl, first'⟩ : ∃ first rest, buffer = first ++ rest ∧
      first.length = header.length + 1 := exists_split buffer (by omega)
  rw [List.length_append] at size
  obtain ⟨line, rest, rfl, line'⟩ : ∃ line others, rest = line ++ others ∧ line.length = 2 :=
    exists_split rest (by omega)
  rw [List.length_append] at size
  obtain ⟨content, last, split, content'⟩ : ∃ content last, 0 :: rest = content ++ last ∧
      content.length = body.length := exists_split (0 :: rest) (by rw [List.length_cons]; omega)
  have last' : last.length = 1 := by
    have total := congrArg List.length split
    rw [List.length_cons, List.length_append] at total
    omega
  have source' (bytes : Bytes) {other : Nat} (different : address ≠ other) :
      block (heap.set address (some bytes)) other = block heap other :=
    block_set_of_ne different _
  have target' : block heap address = some (front ++ first ++ (line ++ rest ++ back)) := by
    rw [target]
    simp
  have copied := strcpy_append front (line ++ rest ++ back) target' held string first'
  have afterCopy : block (heap.set address (some (front ++ (header ++ [0]) ++ (line ++ rest ++ back))))
      address = some (front ++ header ++ 0 :: (line ++ (rest ++ back))) := by
    rw [block_set inside]
    simp
  have ended := strcat_append front (rest ++ back) [13, 10] afterCopy string line'.symm
  rw [List.set_set] at ended
  have afterLine : block (heap.set address
      (some (front ++ header ++ ([13, 10] ++ [0]) ++ (rest ++ back)))) address =
        some (front ++ header ++ [13, 10] ++ content ++ (last ++ back)) := by
    rw [block_set inside, List.append_assoc _ content, ← List.append_assoc content, ← split]
    simp
  have filled := memcpy_append (front ++ header ++ [13, 10]) (last ++ back) afterLine content'.symm (by
    intro some'
    obtain ⟨pointer, found, apart', live⟩ := heldBody some'
    exact ⟨pointer, found, (source' _ apart').trans live⟩)
  rw [List.set_set] at filled
  have afterBody : block (heap.set address
      (some (front ++ header ++ [13, 10] ++ body ++ (last ++ back)))) address =
        some (front ++ header ++ [13, 10] ++ body ++ last ++ back) := by
    rw [block_set inside, List.append_assoc _ last]
  have closed := write_append (front ++ header ++ [13, 10] ++ body) back [0] afterBody last'.symm
  rw [List.set_set] at closed
  have behindLine : (front ++ header ++ [13, 10]).length = front.length + header.length + 2 := by
    simp only [List.length_append]
    rfl
  have behindBody : (front ++ header ++ [13, 10] ++ body).length =
      front.length + (header.length + body.length + 2) := by
    rw [List.length_append, behindLine]
    omega
  rw [behindLine] at filled
  rw [behindBody] at closed
  have number (n : Nat) : (n : Int).toNat? = some n := Int.mem_toNat?.mpr rfl
  simp only [buildMessage, number, copied, ended, filled, closed, Option.bind_eq_bind,
    Option.bind_some, Option.pure_def]
  simp only [List.append_assoc]

/-- `strcpy` reads from the null pointer. -/
theorem buildMessage_null (heap : Heap) (address offset : Nat) (body : Option Nat)
    (headerSize bodySize total : Int) :
    buildMessage heap address offset none body headerSize bodySize total = none := by
  simp [buildMessage, strcpy]

end Build

section Dump
variable {table : Table}

/-- A symbol that is bound is taken from the mailspec. -/
theorem aclSymbolGet_bound {name : String} {mask : StageMask} {value : Value}
    (stage : table "stage" = some (.int MilterStage.eom.mask))
    (entry : milterSymbols.lookup name = some mask) (available : mask &&& MilterStage.eom.mask ≠ 0)
    (bound : table name = some value) :
    aclSymbolGet tableOps milterRegistry table name = (table, some value) := by
  have registered : milterRegistry name = some (.symbol mask none false) := by
    simp only [milterRegistry, entry, Option.map_some]
  have current : tableOps.stage table = some MilterStage.eom.mask := by
    simp [tableOps, vtableGet, stage, numberOf]
  have found : tableOps.lookup table name = some value := bound
  rw [aclSymbolGet_symbol tableOps registered current available]
  simp [found]

/-- The message fits the buffer when its size is in the range of an `int`. -/
theorem dumpMessage_eq {headerSize bodySize : Nat} (small : headerSize + bodySize + 3 < 2 ^ 31)
    (heap : Heap) (address offset : Nat) (header body : Option Nat) :
    dumpMessage heap address offset ((headerSize + bodySize + 3 : Nat) : Int) header body headerSize
        bodySize =
      buildMessage heap address offset header body headerSize bodySize
        ((headerSize + bodySize + 2 : Nat) : Int) := by
  have total : intOfLong ((headerSize : Int) + 2 + bodySize) =
      ((headerSize + bodySize + 2 : Nat) : Int) := by
    rw [intOfLong, Int.bmod_eq_of_le (by omega) (by omega)]
    omega
  have fits : ¬ (((headerSize + bodySize + 3 : Nat) : Int) <
      ((headerSize + bodySize + 2 : Nat) : Int) + 1) := by omega
  simp only [dumpMessage]
  rw [total, if_neg fits]

theorem milterDumpMessage_found {headers headersSize body bodySize : Value} {header content : Int}
    (found : aclSymbolDereference table ["headers", "headers_size", "body", "body_size"] =
      [some headers, some headersSize, some body, some bodySize])
    (readHeader : numberOf headersSize = some header) (readBody : numberOf bodySize = some content)
    (heap : Heap) (address offset : Nat) (size : Int) (pointer bodyPointer : Option Nat) :
    milterDumpMessage heap address offset size ⟨table, pointer, bodyPointer⟩ =
      dumpMessage heap address offset size (dataOf headers pointer) (dataOf body bodyPointer) header
        content := by
  unfold milterDumpMessage
  rw [found]
  simp only [readHeader, readBody, Option.bind_some]

theorem milterDumpMessage_eq {headers body : Value} {headerSize bodySize : Nat}
    (stage : table "stage" = some (.int MilterStage.eom.mask))
    (boundHeaders : table "headers" = some headers)
    (boundHeadersSize : table "headers_size" = some (.int headerSize))
    (boundBody : table "body" = some body) (boundBodySize : table "body_size" = some (.int bodySize))
    (heap : Heap) (address offset : Nat) (size : Int) (pointer bodyPointer : Option Nat) :
    milterDumpMessage heap address offset size ⟨table, pointer, bodyPointer⟩ =
      dumpMessage heap address offset size (dataOf headers pointer) (dataOf body bodyPointer)
        headerSize bodySize := by
  have afterEoh : msOffEoh &&& MilterStage.eom.mask ≠ 0 := by decide
  have afterEom : msOffEom &&& MilterStage.eom.mask ≠ 0 := by decide
  have found : aclSymbolDereference table ["headers", "headers_size", "body", "body_size"] =
      [some headers, some (.int headerSize), some body, some (.int bodySize)] := by
    rw [aclSymbolDereference, aclSymbolGet_bound stage rfl afterEoh boundHeaders,
      aclSymbolDereference, aclSymbolGet_bound stage rfl afterEoh boundHeadersSize,
      aclSymbolDereference, aclSymbolGet_bound stage rfl afterEom boundBody,
      aclSymbolDereference, aclSymbolGet_bound stage rfl afterEom boundBodySize,
      aclSymbolDereference]
  exact milterDumpMessage_found found rfl rfl heap address offset size pointer bodyPointer

end Dump

/-! ## The callbacks of a message -/

section Callbacks
variable {call : Call} {mp : MilterPriv}

/-- A symbol that the ACL leaves as it is. -/
def Lasting (name : String) : Prop := (milterSymbols.lookup name).isSome = true ∧ name ≠ "action"

theorem lasting_stage : Lasting "stage" := ⟨rfl, by decide⟩

theorem milterAcl_lasting (stage : MilterStage) (acl : AclRun) (mp : MilterPriv) {name : String} {value : Value}
    (lasting : Lasting name) (bound : mp.table name = some value) :
    (milterAcl stage acl mp).2.table name = some value := by
  obtain ⟨mask, entry⟩ := Option.isSome_iff_exists.mp lasting.1
  simp only [milterAcl, vtableSet_other _ _ _ _ lasting.2, aclTable, entry, bound]

/-- `milter_common_init` needs the stage that the callback before has left. -/
theorem milterCommonInit_spec (ctx : Nat) {stage : MilterStage} (queueId : Option Bytes)
    (later : stage ≠ .init) (staged : (mp.table "stage").isSome = true) :
    ∃ table, milterCommonInit ctx stage queueId mp = some { mp with table := table } ∧
      table "stage" = some (.int stage.mask) ∧
      ∀ name, messageOnly name = true → name ≠ "queue_id" → table name = mp.table name := by
  obtain ⟨last, bound⟩ := Option.isSome_iff_exists.mp staged
  have saved : saveStage stage mp.table =
      some (vtableRemove (vtableSet mp.table "laststage" last) "stage") := by
    simp only [saveStage, if_neg later, vtableRename, bound]
  have queue (table : Table) {name : String} (different : name ≠ "queue_id") :
      lookupQueueId queueId table name = table name := by
    unfold lookupQueueId
    cases table "queue_id" with
    | some value => rfl
    | none =>
        cases queueId with
        | none => rfl
        | some id => exact vtableSet_other _ _ _ _ different
  refine ⟨_, by rw [milterCommonInit, saved, Option.map_some], ?_, ?_⟩
  · rw [queue _ (by decide)]
    simp [stageSymbols, vtableSetv]
  · intro name only different
    rw [queue _ different, stageSymbols_other _ _ _ only, saveStage_other saved only]

theorem handler_stage (callback : Callback) : callback.handler.stage ≠ .init := by
  cases callback <;> exact MilterStage.noConfusion

/-- A callback that sets its symbols. -/
theorem prepare_spec (ctx : Nat) (call : Call) {symbols : List (String × Value)}
    (staged : (mp.table "stage").isSome = true)
    (sets : ∀ table, call.callback.handler.symbols
      { call.callback.handler.advance mp with table := table } = some symbols) :
    ∃ table, prepare ctx call mp =
        some ({ call.callback.handler.advance mp with table := vtableSetv table symbols }, true) ∧
      table "stage" = some (.int call.callback.handler.stage.mask) ∧
      ∀ name, messageOnly name = true → name ≠ "queue_id" → table name = mp.table name := by
  obtain ⟨table, initialised, stage, kept⟩ := milterCommonInit_spec ctx call.queueId
    (handler_stage call.callback) staged
  refine ⟨table, ?_, stage, kept⟩
  simp only [prepare, initialised, Option.bind_eq_bind, Option.bind_some, advance_with_table, sets,
    Option.pure_def]

theorem milterCallback_spec (ctx : Nat) (call : Call) {symbols : List (String × Value)}
    (staged : (mp.table "stage").isSome = true)
    (sets : ∀ table, call.callback.handler.symbols
      { call.callback.handler.advance mp with table := table } = some symbols)
    (own : "stage" ∉ symbols.map Prod.fst) (noRecipient : acceptedRecipient call = none)
    (stays : call.callback.endsMessage = false) :
    ∃ before after : Table, milterCallback ctx mp call =
        some { call.callback.handler.advance mp with table := after } ∧
      (after "stage").isSome = true ∧
      (∀ name, messageOnly name = true → name ≠ "queue_id" → before name = mp.table name) ∧
      ∀ name value, Lasting name → vtableSetv before symbols name = some value →
        after name = some value := by
  obtain ⟨before, prepared, stage, kept⟩ := prepare_spec ctx call staged sets
  have lasts {name : String} {value : Value} (lasting : Lasting name)
      (bound : vtableSetv before symbols name = some value) :=
    milterAcl_lasting call.callback.handler.stage call.acl
      { call.callback.handler.advance mp with table := vtableSetv before symbols } lasting bound
  refine ⟨before, _, ?_, ?_, kept, fun name value => lasts⟩
  · simp only [milterCallback, prepared, Option.bind_eq_bind, Option.bind_some, if_true, complete,
      noRecipient, stays, Bool.false_eq_true, if_false]
    rfl
  · rw [lasts lasting_stage (by rw [vtableSetv_other _ _ _ own, stage])]
    rfl

theorem milterHeader_symbols_own {headerf headerv : Bytes} (mp : MilterPriv)
    {symbols : List (String × Value)} (sets : (milterHeader headerf headerv).symbols mp = some symbols) :
    "stage" ∉ symbols.map Prod.fst := by
  cases Option.some.inj sets
  split <;> split <;> simp

/-- `milter_header` collects the lines of the header. -/
theorem headers_run (ctx : Nat) (headers : List (CString × CString)) : ∀ (calls : List Call)
    (mp : MilterPriv), calls.map Call.callback =
      headers.map (fun header => .header header.1.text header.2.text) →
    (mp.table "stage").isSome = true →
    ∃ next, milterRun ctx mp calls = some next ∧ (next.table "stage").isSome = true ∧
      next.header = (if headers.isEmpty then mp.header
        else some (mp.header.getD [] ++ headersText headers)) ∧
      next.headerlen = mp.headerlen + (headersText headers).length ∧
      next.body = mp.body ∧ next.bodylen = mp.bodylen := by
  induction headers with
  | nil =>
      intro calls mp received staged
      obtain rfl := List.map_eq_nil_iff.mp received
      exact ⟨mp, rfl, staged, rfl, by simp [headersText], rfl, rfl⟩
  | cons header headers ih =>
      intro calls mp received staged
      obtain ⟨call, calls, rfl, first, rest⟩ := List.map_eq_cons_iff.mp received
      obtain ⟨callback, queueId, acl⟩ := call
      obtain rfl : callback = .header header.1.text header.2.text := first
      obtain ⟨_, after, ran, staged', _⟩ := milterCallback_spec ctx
        ⟨.header header.1.text header.2.text, queueId, acl⟩ staged (fun _ => rfl)
        (milterHeader_symbols_own mp rfl) rfl rfl
      obtain ⟨next, ran', staged'', header', headerlen, body, bodylen⟩ := ih calls
        { (milterHeader header.1.text header.2.text).advance mp with table := after } rest staged'
      have whole : headersText (header :: headers) =
          headerLine header.1.text header.2.text ++ headersText headers := List.flatMap_cons
      refine ⟨next, ?_, staged'', ?_, ?_, body, bodylen⟩
      · rw [milterRun, ran, Option.bind_some]
        exact ran'
      · rw [header', whole, ← List.append_assoc]
        cases headers with
        | nil => simp [milterHeader, headersText]
        | cons other headers => rfl
      · rw [headerlen, whole, List.length_append]
        simp only [milterHeader]
        omega

/-- `milter_body` collects the chunks, and leaves the header. -/
theorem chunks_run (ctx : Nat) (chunks : List Bytes) : ∀ (calls : List Call) (mp : MilterPriv),
    calls.map Call.callback = chunks.map .body → (mp.table "stage").isSome = true →
    ∃ next, milterRun ctx mp calls = some next ∧ (next.table "stage").isSome = true ∧
      next.header = mp.header ∧ next.headerlen = mp.headerlen ∧
      next.body.getD [] = mp.body.getD [] ++ chunks.flatten ∧
      next.bodylen = mp.bodylen + chunks.flatten.length ∧
      ∀ name value, Lasting name → messageOnly name = true → name ≠ "queue_id" →
        mp.table name = some value → next.table name = some value := by
  induction chunks with
  | nil =>
      intro calls mp received staged
      obtain rfl := List.map_eq_nil_iff.mp received
      exact ⟨mp, rfl, staged, rfl, rfl, by simp, by simp, fun _ _ _ _ _ bound => bound⟩
  | cons chunk chunks ih =>
      intro calls mp received staged
      obtain ⟨call, calls, rfl, first, rest⟩ := List.map_eq_cons_iff.mp received
      obtain ⟨callback, queueId, acl⟩ := call
      obtain rfl : callback = .body chunk := first
      obtain ⟨before, after, ran, staged', kept, lasts⟩ := milterCallback_spec ctx
        ⟨.body chunk, queueId, acl⟩ staged (fun _ => rfl) List.not_mem_nil rfl rfl
      obtain ⟨next, ran', staged'', header, headerlen, body, bodylen, kept'⟩ := ih calls
        { (milterBody chunk).advance mp with table := after } rest staged'
      refine ⟨next, ?_, staged'', header, headerlen, ?_, ?_, ?_⟩
      · rw [milterRun, ran, Option.bind_some]
        exact ran'
      · rw [body]
        simp [milterBody]
      · rw [bodylen, List.flatten_cons, List.length_append]
        simp only [milterBody]
        omega
      · intro name value lasting only different bound
        apply kept' name value lasting only different
        apply lasts name value lasting
        rw [vtableSetv, kept name only different, bound]

/-- Nothing of a message is collected. -/
structure Started (mp : MilterPriv) : Prop where
  staged : (mp.table "stage").isSome = true
  header : mp.header = none
  headerlen : mp.headerlen = 0
  body : mp.body = none
  bodylen : mp.bodylen = 0

theorem milterCommonInit_stage {ctx : Nat} {stage : MilterStage} {queueId : Option Bytes}
    {next : MilterPriv} (success : milterCommonInit ctx stage queueId mp = some next) :
    (next.table "stage").isSome = true := by
  obtain ⟨table, _, rfl⟩ := Option.map_eq_some_iff.mp success
  rw [lookupQueueId_isSome, vtableSetv_isSome]
  exact .inl (.inl (by simp [stageSymbols]))

theorem milterAcl_stage (stage : MilterStage) (acl : AclRun)
    (staged : (mp.table "stage").isSome = true) :
    ((milterAcl stage acl mp).2.table "stage").isSome = true := by
  obtain ⟨value, bound⟩ := Option.isSome_iff_exists.mp staged
  rw [milterAcl_lasting stage acl mp lasting_stage bound]
  rfl

/-- Every callback leaves its stage. -/
theorem milterCallback_stage {ctx : Nat} {next : MilterPriv}
    (success : milterCallback ctx mp call = some next) : (next.table "stage").isSome = true := by
  obtain ⟨⟨prepared, ready⟩, preparing, rest⟩ := Option.bind_eq_some_iff.mp success
  obtain ⟨first, initialised, preparing⟩ := Option.bind_eq_some_iff.mp preparing
  have staged := milterCommonInit_stage initialised
  rw [← advance_table call.callback] at staged
  cases symbols : call.callback.handler.symbols (call.callback.handler.advance first) with
  | none =>
      simp only [symbols] at preparing
      cases Option.some.inj preparing
      cases Option.some.inj rest
      exact staged
  | some entries =>
      simp only [symbols] at preparing
      cases Option.some.inj preparing
      simp only [if_true] at rest
      rw [complete_isSome "stage" rest]
      exact .inl (milterAcl_stage _ _ ((vtableSetv_isSome _ _ _).mpr (.inr staged)))

theorem milterConnect_started {ctx : Nat} {connect : Connect}
    (success : milterConnect ctx connect = some mp) : Started mp := by
  have staged : (mp.table "stage").isSome = true := by
    simp only [milterConnect, Option.bind_eq_bind, Option.bind_eq_some_iff] at success
    obtain ⟨_, _, second, initialised, success⟩ := success
    have staged := milterCommonInit_stage initialised
    cases client : connect.client with
    | none =>
        rw [client] at success
        cases Option.some.inj success
        exact staged
    | some known =>
        rw [client] at success
        cases Option.some.inj success
        exact milterAcl_stage _ _ ((vtableSetv_isSome _ _ _).mpr (.inr staged))
  obtain ⟨table, rfl⟩ := milterConnect_eq success
  exact ⟨staged, rfl, rfl, rfl, rfl⟩

/-- A callback that leaves nothing of a message collected. -/
theorem milterCallback_started {ctx : Nat} {next : MilterPriv} {begun : Bool}
    (started : begun = false → Started mp) (success : milterCallback ctx mp call = some next)
    (ended : collecting begun call = false) : Started next := by
  have staged := milterCallback_stage success
  obtain ⟨table, rfl⟩ := milterCallback_eq success
  obtain ⟨callback, queueId, acl⟩ := call
  cases callback with
  | header headerf headerv => cases ended
  | body chunk => cases ended
  | eom => exact ⟨staged, rfl, rfl, rfl, rfl⟩
  | abort => exact ⟨staged, rfl, rfl, rfl, rfl⟩
  | _ =>
      have before := started ended
      exact ⟨staged, before.header, before.headerlen, before.body, before.bodylen⟩

theorem milterRun_started (ctx : Nat) (calls : List Call) : ∀ (begun : Bool) (mp next : MilterPriv),
    (begun = false → Started mp) → milterRun ctx mp calls = some next →
    calls.foldl collecting begun = false → Started next := by
  induction calls with
  | nil =>
      intro begun mp next started success ended
      cases Option.some.inj success
      exact started ended
  | cons call rest ih =>
      intro begun mp next started success ended
      obtain ⟨middle, first, later⟩ := Option.bind_eq_some_iff.mp success
      exact ih _ middle next (milterCallback_started started first) later ended

/-- The private data when `milter_eom` is called. -/
structure Collected (headers : List (CString × CString)) (chunks : List Bytes) (mp : MilterPriv) :
    Prop where
  staged : (mp.table "stage").isSome = true
  header : mp.header = if headers.isEmpty then none else some (headersText headers)
  headerlen : mp.headerlen = (headersText headers).length
  body : mp.body.getD [] = chunks.flatten
  bodylen : mp.bodylen = chunks.flatten.length
  headersSymbol : mp.table "headers" = some (stringOrNull mp.header)
  headersSize : mp.table "headers_size" = some (.int (headersText headers).length)

theorem message_run (ctx : Nat) {headers : List (CString × CString)} {chunks : List Bytes}
    {message : List Call} (started : Started mp)
    (received : message.map Call.callback = messageCallbacks headers chunks) :
    ∃ next, milterRun ctx mp message = some next ∧ Collected headers chunks next := by
  obtain ⟨lines, others, rfl, asHeaders, others'⟩ := List.map_eq_append_iff.mp received
  obtain ⟨call, parts, rfl, asEoh, asChunks⟩ := List.map_eq_cons_iff.mp others'
  obtain ⟨callback, queueId, acl⟩ := call
  obtain rfl : callback = .eoh := asEoh
  obtain ⟨first, ran, staged, header, headerlen, body, bodylen⟩ :=
    headers_run ctx headers lines mp asHeaders started.staged
  have own : "stage" ∉ ([("headers", stringOrNull first.header),
      ("headers_size", .int first.headerlen)] : List (String × Value)).map Prod.fst := by simp
  obtain ⟨before, after, ran', staged', kept, lasts⟩ := milterCallback_spec ctx
    ⟨.eoh, queueId, acl⟩ staged (fun _ => rfl) own rfl rfl
  obtain ⟨next, ran'', staged'', header', headerlen', body', bodylen', kept'⟩ :=
    chunks_run ctx chunks parts { milterEoh.advance first with table := after } asChunks staged'
  have lastingHeaders : Lasting "headers" := ⟨rfl, by decide⟩
  have lastingSize : Lasting "headers_size" := ⟨rfl, by decide⟩
  have collected : next.header = if headers.isEmpty then none else some (headersText headers) := by
    rw [header', show (milterEoh.advance first).header = first.header from rfl, header, started.header]
    rfl
  have length : first.headerlen = (headersText headers).length := by
    rw [headerlen, started.headerlen, Int.zero_add]
  refine ⟨next, ?_, ⟨staged'', collected, headerlen'.trans length, ?_, ?_, ?_, ?_⟩⟩
  · rw [milterRun_append, ran, Option.bind_some, milterRun, ran', Option.bind_some]
    exact ran''
  · rw [body', show (milterEoh.advance first).body = first.body from rfl, body, started.body]
    rfl
  · rw [bodylen', show (milterEoh.advance first).bodylen = first.bodylen from rfl, bodylen,
      started.bodylen, Int.zero_add]
  · rw [header']
    apply kept' "headers" _ lastingHeaders rfl (by decide)
    apply lasts "headers" _ lastingHeaders
    simp [vtableSetv, milterEoh]
  · rw [← length]
    apply kept' "headers_size" _ lastingSize rfl (by decide)
    apply lasts "headers_size" _ lastingSize
    simp [vtableSetv]

end Callbacks

/-! ## The buffers of a message -/

section Pointers
variable {junk : Nat → Nat → UInt8} {b next : Buffers}

theorem buffersRun_append (junk : Nat → Nat → UInt8) (first second : List Call) : ∀ b : Buffers,
    buffersRun junk b (first ++ second) =
      (buffersRun junk b first).bind fun next => buffersRun junk next second := by
  induction first with
  | nil => intro b; rfl
  | cons call rest ih =>
      intro b
      simp only [List.cons_append, buffersRun, Option.bind_assoc, ih]

theorem appendBody_pointers {chunk : Bytes} (success : appendBody junk b chunk = some next) :
    next.headers = b.headers ∧ next.header = b.header := by
  obtain ⟨⟨address, heap⟩, _, success⟩ := Option.bind_eq_some_iff.mp success
  obtain ⟨heap, _, success⟩ := Option.bind_eq_some_iff.mp success
  obtain ⟨heap, _, success⟩ := Option.bind_eq_some_iff.mp success
  cases Option.some.inj success
  exact ⟨rfl, rfl⟩

/-- The symbol `headers` points at the header as long as only chunks are added. -/
theorem chunks_pointers (chunks : List Bytes) : ∀ (calls : List Call) (b next : Buffers),
    calls.map Call.callback = chunks.map .body → buffersRun junk b calls = some next →
    b.headers = b.header → next.headers = next.header := by
  induction chunks with
  | nil =>
      intro calls b next received success same
      obtain rfl := List.map_eq_nil_iff.mp received
      cases Option.some.inj success
      exact same
  | cons chunk chunks ih =>
      intro calls b next received success same
      obtain ⟨call, calls, rfl, first, rest⟩ := List.map_eq_cons_iff.mp received
      obtain ⟨middle, stepped, later⟩ := Option.bind_eq_some_iff.mp success
      rw [first] at stepped
      obtain ⟨after, appended, rfl⟩ := Option.map_eq_some_iff.mp stepped
      obtain ⟨headers, header⟩ := appendBody_pointers appended
      exact ih calls after next rest later (by rw [headers, header, same])

theorem message_pointers {headers : List (CString × CString)} {chunks : List Bytes}
    {before message : List Call} (received : message.map Call.callback = messageCallbacks headers chunks)
    (success : buffersRun junk buffersCreate (before ++ message) = some next) :
    next.headers = next.header := by
  obtain ⟨lines, others, rfl, _, others'⟩ := List.map_eq_append_iff.mp received
  obtain ⟨call, parts, rfl, asEoh, asChunks⟩ := List.map_eq_cons_iff.mp others'
  rw [← List.append_assoc, buffersRun_append] at success
  obtain ⟨b, _, success⟩ := Option.bind_eq_some_iff.mp success
  obtain ⟨middle, stepped, later⟩ := Option.bind_eq_some_iff.mp success
  rw [asEoh] at stepped
  cases Option.some.inj stepped
  exact chunks_pointers chunks parts _ next asChunks later rfl

end Pointers

/-! ## The hand-over -/

/-- What the ACL of `milter_eom` finds of a message. -/
structure Ready (headers : List (CString × CString)) (chunks : List Bytes) (table : Table)
    (b : Buffers) : Prop where
  stage : table "stage" = some (.int MilterStage.eom.mask)
  headersSize : table "headers_size" = some (.int (headersText headers).length)
  bodySize : table "body_size" = some (.int chunks.flatten.length)
  messageSize : table "message_size" = some (.int (messageLength headers chunks))
  headers : ∃ header length, table "headers" = some (stringOrNull header) ∧
    header = (if headers.isEmpty then none else some (headersText headers)) ∧
    HoldsText b.heap b.headers length header
  body : ∃ content length, table "body" = some (stringOrNull content) ∧
    content.getD [] = chunks.flatten ∧ HoldsText b.heap b.bodySymbol length content

theorem dataOf_stringOrNull {heap : Heap} {pointer : Option Nat} {length : Nat}
    {content : Option Bytes} (held : HoldsText heap pointer length content) :
    dataOf (stringOrNull content) pointer = pointer := by
  cases content with
  | none => exact held.2.symm
  | some text => rfl

section HandOver
variable {junk : Nat → Nat → UInt8} {ctx : Nat} {connect : Connect}
  {headers : List (CString × CString)} {chunks : List Bytes} {eom : Call}

theorem atEom_ready (junk : Nat → Nat → UInt8) (ctx : Nat) (connect : Connect)
    (before message : List Call) (eom : Call)
    (started : (milterSession ctx connect before).isSome = true) (closed : messageOpen before = false)
    (received : message.map Call.callback = messageCallbacks headers chunks)
    (last : eom.callback = .eom) :
    ∃ mp b, AtEom junk ctx connect (before ++ message) eom mp b ∧ Ready headers chunks mp.table b := by
  obtain ⟨mp, session⟩ := Option.isSome_iff_exists.mp started
  obtain ⟨first, connected, ran⟩ := Option.bind_eq_some_iff.mp session
  have fresh := milterRun_started ctx before false first mp (fun _ => milterConnect_started connected)
    ran closed
  obtain ⟨next, ran', collected⟩ := message_run ctx fresh received
  have session' : milterSession ctx connect (before ++ message) = some next := by
    rw [milterSession, connected, Option.bind_some, milterRun_append, ran, Option.bind_some, ran']
  obtain ⟨b, stored, holds⟩ := session_buffers junk ctx connect _ session'
  have pointers := message_pointers received stored
  obtain ⟨callback, queueId, acl⟩ := eom
  obtain rfl : callback = .eom := last
  have sets (table : Table) : milterEom.symbols { milterEom.advance next with table := table } =
      some [("body_size", .int next.bodylen),
        ("message_size", .int (next.bodylen + next.headerlen + 2)),
        ("body", stringOrNull next.body), ("eom_complete", .int 1)] := rfl
  obtain ⟨table, prepared, stage, kept⟩ := prepare_spec ctx ⟨.eom, queueId, acl⟩ collected.staged sets
  have size : next.bodylen + next.headerlen + 2 = (messageLength headers chunks : Int) := by
    rw [collected.bodylen, collected.headerlen, messageLength]
    omega
  have atEom : AtEom junk ctx connect (before ++ message) ⟨.eom, queueId, acl⟩
      { milterEom.advance next with
        table := vtableSetv table [("body_size", .int next.bodylen),
          ("message_size", .int (next.bodylen + next.headerlen + 2)),
          ("body", stringOrNull next.body), ("eom_complete", .int 1)] }
      { b with bodySymbol := b.body } := by
    constructor
    · rw [session', Option.bind_some]
      exact prepared
    · rw [stored]
      rfl
  refine ⟨_, _, atEom, ⟨?_, ?_, ?_, ?_, ?_, ?_⟩⟩
  · simp [vtableSetv, stage]
    rfl
  · simp [vtableSetv, kept "headers_size" rfl (by decide), collected.headersSize]
  · simp [vtableSetv, collected.bodylen]
  · simp [vtableSetv, size]
  · refine ⟨next.header, b.headerlen, ?_, collected.header, ?_⟩
    · simp [vtableSetv, kept "headers" rfl (by decide), collected.headersSymbol]
    · rw [pointers]
      exact holds.header
  · refine ⟨next.body, b.bodylen, ?_, collected.body, holds.body⟩
    simp [vtableSetv]

/-- The ACL finds one state only. -/
theorem atEom_unique {calls : List Call} {mp mp' : MilterPriv} {b b' : Buffers}
    (first : AtEom junk ctx connect calls eom mp b) (second : AtEom junk ctx connect calls eom mp' b') :
    mp = mp' ∧ b = b' := by
  obtain ⟨session, stored⟩ := first
  obtain ⟨session', stored'⟩ := second
  rw [session, Option.some.injEq, Prod.mk.injEq] at session'
  rw [stored, Option.some.injEq] at stored'
  exact ⟨session'.1, stored'⟩

/-- With a header the whole message is copied. -/
theorem ready_handedOver {table : Table} {b : Buffers} (ready : Ready headers chunks table b)
    (small : messageLength headers chunks + 1 < 2 ^ 31) (some' : headers ≠ []) :
    HandedOver headers chunks table b := by
  refine ⟨ready.headersSize, ready.bodySize, ready.messageSize, ?_⟩
  intro front buffer back size
  obtain ⟨header, _, boundHeader, rfl, heldHeader⟩ := ready.headers
  obtain ⟨content, _, boundBody, whole, heldBody⟩ := ready.body
  have filled : headers.isEmpty = false := by
    rw [Bool.eq_false_iff, ne_eq, List.isEmpty_iff]
    exact some'
  rw [filled, if_neg Bool.false_ne_true] at boundHeader heldHeader
  have headerData := dataOf_stringOrNull heldHeader
  have bodyData := dataOf_stringOrNull heldBody
  obtain ⟨_, source, pointer, live⟩ := heldHeader
  rw [pointer] at headerData
  have small' : (headersText headers).length + chunks.flatten.length + 3 < 2 ^ 31 := small
  have size' : buffer.length = (headersText headers).length + chunks.flatten.length + 3 := size
  have kept {address : Nat} {bytes : Bytes} (live : block b.heap address = some bytes) :
      block (alloc b.heap (front ++ buffer ++ back)) address = some bytes := by
    rw [block_alloc_of_lt (lt_length live), live]
  have liveBody : chunks.flatten ≠ [] → ∃ address, b.bodySymbol = some address ∧
      b.heap.length ≠ address ∧
      block (alloc b.heap (front ++ buffer ++ back)) address = some (chunks.flatten ++ [0]) := by
    intro nonempty
    cases content with
    | none => exact (nonempty whole.symm).elim
    | some text =>
        obtain rfl : text = chunks.flatten := whole
        obtain ⟨_, address, pointer, live⟩ := heldBody
        exact ⟨address, pointer, Nat.ne_of_gt (lt_length live), kept live⟩
  have copied := buildMessage_spec front buffer back block_alloc size' (headersText_terminated headers)
    (kept live) liveBody
  rw [milterDumpMessage_eq ready.stage boundHeader ready.headersSize boundBody ready.bodySize, pointer,
    headerData, bodyData, size', dumpMessage_eq small', copied, alloc_set]
  rfl

/-- Without a header the copy fails. -/
theorem milterDumpMessage_null {table : Table} {b : Buffers} (ready : Ready [] chunks table b)
    (small : messageLength [] chunks + 1 < 2 ^ 31) (heap : Heap) (address offset : Nat) :
    milterDumpMessage heap address offset ((messageLength [] chunks + 1 : Nat) : Int)
      ⟨table, b.headers, b.bodySymbol⟩ = none := by
  obtain ⟨header, _, boundHeader, rfl, heldHeader⟩ := ready.headers
  obtain ⟨content, _, boundBody, whole, heldBody⟩ := ready.body
  have null : dataOf (stringOrNull none) b.headers = none := rfl
  have small' : (headersText []).length + chunks.flatten.length + 3 < 2 ^ 31 := small
  have size : messageLength [] chunks + 1 = (headersText []).length + chunks.flatten.length + 3 := rfl
  rw [milterDumpMessage_eq ready.stage boundHeader ready.headersSize boundBody ready.bodySize, size,
    dumpMessage_eq small']
  simp only [List.isEmpty_nil, if_true, null, buildMessage_null]

theorem not_handedOver {table : Table} {b : Buffers} (ready : Ready [] chunks table b)
    (small : messageLength [] chunks + 1 < 2 ^ 31) : ¬ HandedOver [] chunks table b := by
  intro handed
  have size : (List.replicate (messageLength [] chunks + 1) (0 : UInt8)).length =
      messageLength [] chunks + 1 := List.length_replicate
  have copied := handed.dump [] (List.replicate (messageLength [] chunks + 1) 0) [] size
  rw [size, milterDumpMessage_null ready small] at copied
  cases copied

end HandOver

end Mopher.Milter
