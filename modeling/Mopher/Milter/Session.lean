import Mopher.Stage

/-!
# The milter callbacks

Model of `milter.c`: the symbols without callback, the private data of a
connection and what every libmilter callback does to it.

The ACL is data of a callback: the action it returns, the symbols it evaluates
on the way, and what it leaves under names that are not of `milter_symbols`.
Of the latter it binds only those it evaluates, to `NULL`, if they are unbound
and the stage permits them (`acl_symbol_get`).  Memory and clock do not fail.
A callback has no result where the C code reads through a null pointer.
`milter_close` runs the ACL a last time and frees the private data, so nothing
follows it.
-/

set_option autoImplicit false

namespace Mopher.Milter

/-- The table `milter_symbols` of `milter.c`. -/
def milterSymbols : List (String × StageMask) :=
  [("milter_ctx", msAny),
    ("action", msAny),
    ("id", msAny ||| MilterStage.init.mask),
    ("stage", msAny),
    ("stagename", msAny),
    ("unknown_command", MilterStage.unknown.mask),
    ("received", msAny ||| MilterStage.init.mask),
    ("hostaddr", msAny),
    ("hostaddr_str", msAny),
    ("ipv6", msAny),
    ("hostname", msAny),
    ("origin", msAny),
    ("helo", msOffHelo),
    ("envfrom", msOffEnvfrom),
    ("envfrom_addr", msOffEnvfrom),
    ("envfrom_domain", msOffEnvfrom),
    ("envrcpt", msOffEnvrcpt),
    ("envrcpt_addr", msOffEnvrcpt),
    ("envrcpt_domain", msOffEnvrcpt),
    ("recipients", msOffEnvrcpt),
    ("recipient_list", msOffData),
    ("header_name", MilterStage.header.mask),
    ("header_value", MilterStage.header.mask),
    ("headers", msOffEoh),
    ("headers_size", msOffEoh),
    ("message_id", msOffEoh),
    ("queue_id", msOffData),
    ("subject", msOffEoh),
    ("body", msOffEom),
    ("body_size", msOffEom),
    ("message_size", msOffEom),
    ("eom_complete", msAny)]

/-- `stages` of `milter_priv_clear_msg`. -/
def connectionStages : StageMask := maskOf [.connect, .unknown, .helo]

/-- The symbol belongs to a message only: none of the stages of the connection
has it. -/
def messageOnly (name : String) : Bool :=
  match milterSymbols.lookup name with
  | none => false
  | some mask => mask &&& connectionStages == 0

/-- `milter_priv_t`. -/
structure MilterPriv where
  table : Table
  recipients : Int
  header : Option Bytes
  headerlen : Int
  body : Option Bytes
  bodylen : Int
  eomComplete : Int

def milterPrivCreate : MilterPriv :=
  { table := fun _ => none, recipients := 0, header := none, headerlen := 0, body := none,
    bodylen := 0, eomComplete := 0 }

/-- `milter_priv_clear_msg`, with the test of its loop as it is written. -/
def milterPrivClearMsg (mp : MilterPriv) : MilterPriv :=
  { mp with
    table := milterSymbols.foldl
      (fun table symbol =>
        if symbol.2 ||| connectionStages ≠ 0 then table else vtableRemove table symbol.1)
      mp.table
    header := none
    body := none
    recipients := 0
    headerlen := 0
    bodylen := 0 }

/-! ## Addresses and headers -/

def less : UInt8 := 60

def greater : UInt8 := 62

def atSign : UInt8 := 64

def mailaddrlen : Nat := 512

/-- `util_strmail`: what stands between the first `<` and the next `>`. -/
def utilStrmail (size : Nat) (src : Bytes) : Option Bytes :=
  match src.dropWhile (· ≠ less) with
  | [] => none
  | _ :: rest =>
      if greater ∈ rest then
        let address := rest.takeWhile (· ≠ greater)
        if address.length ≥ size then none else some address
      else none

/-- `util_strdomain`: what stands behind the last `@`. -/
def utilStrdomain (size : Nat) (src : Bytes) : Option Bytes :=
  if atSign ∈ src then
    let domain := (src.reverse.takeWhile (· ≠ atSign)).reverse
    if domain.length > size + 1 then none else some domain
  else if size = 0 then none
  else some []

def utilTolower (text : Bytes) : Bytes :=
  text.map fun c => if 65 ≤ c ∧ c ≤ 90 then c + 32 else c

/-- Address and domain, as `milter_envfrom` and `milter_envrcpt` take them from
their argument. -/
def envelopeAddress (argv : Bytes) : Option (Bytes × Bytes) := do
  let address ← utilStrmail mailaddrlen argv
  let domain ← utilStrdomain mailaddrlen address
  return (address, utilTolower domain)

def strcasecmp (text other : Bytes) : Bool := utilTolower text == utilTolower other

/-- `util_strdupenc` with the brackets of a message id. -/
def utilStrdupenc (src : Bytes) : Bytes :=
  if src.head? = some less ∧ src.getLast? = some greater then src.tail.dropLast else src

def headerLine (name value : Bytes) : Bytes := name ++ [58, 32] ++ value ++ [13, 10]

/-! ## Callbacks -/

inductive SfsiStat where
  | continue
  | reject
  | discard
  | accept
  | tempfail
deriving Repr, DecidableEq

/-- What a run of the ACL does. -/
structure AclRun where
  action : AclActionType
  touched : List String
  others : Table

inductive Callback where
  | unknown (cmd : Bytes)
  | helo (helostr : Bytes)
  | envfrom (argv : Bytes)
  | envrcpt (argv : Bytes)
  | data
  | header (headerf headerv : Bytes)
  | eoh
  | body (chunk : Bytes)
  | eom
  | abort

/-- A callback with what the MTA and the ACL contribute: the macro `i` and the
run of the ACL. -/
structure Call where
  callback : Callback
  queueId : Option Bytes
  acl : AclRun

def AclActionType.code : AclActionType → Int
  | .error => -1
  | .null => 0
  | .none => 1
  | .return => 2
  | .continue => 3
  | .reject => 4
  | .discard => 5
  | .accept => 6
  | .tempfail => 7
  | .jump => 8
  | .call => 9
  | .set => 10
  | .log => 11
  | .greylist => 12
  | .tarpit => 13
  | .mod => 14
  | .pipe => 15

/-- The verdict of `milter_acl`. -/
def sfsistat : AclActionType → SfsiStat
  | .none => .continue
  | .continue => .continue
  | .reject => .reject
  | .discard => .discard
  | .accept => .accept
  | .tempfail => .tempfail
  | .greylist => .tempfail
  | _ => .tempfail

/-- The table after a run of the ACL. -/
def aclTable (stage : MilterStage) (acl : AclRun) (table : Table) : Table :=
  fun name =>
    match milterSymbols.lookup name with
    | none => acl.others name
    | some mask =>
        match table name with
        | some value => some value
        | none => if name ∈ acl.touched ∧ mask &&& stage.mask ≠ 0 then some (.nil .int) else none

def milterAcl (stage : MilterStage) (acl : AclRun) (mp : MilterPriv) : SfsiStat × MilterPriv :=
  (sfsistat acl.action,
    { mp with
      table := vtableSet (aclTable stage acl mp.table) "action"
        (.int (AclActionType.code acl.action)) })

def stagename : MilterStage → String
  | .init => "init"
  | .connect => "connect"
  | .unknown => "unknown"
  | .helo => "helo"
  | .envfrom => "envfrom"
  | .envrcpt => "envrcpt"
  | .data => "data"
  | .header => "header"
  | .eoh => "eoh"
  | .body => "body"
  | .eom => "eom"
  | .abort => "abort"
  | .close => "close"

def stageSymbols (ctx : Nat) (stage : MilterStage) : List (String × Value) :=
  [("milter_ctx", .scalar (.pointer ctx)), ("stage", .int stage.mask),
    ("stagename", .string (cstr (stagename stage)))]

/-- The end of `milter_common_init`: the queue id is looked up until it is set. -/
def lookupQueueId (queueId : Option Bytes) (table : Table) : Table :=
  match table "queue_id", queueId with
  | none, some id => vtableSet table "queue_id" (.string id)
  | _, _ => table

/-- The last stage is kept; there is none in the stage `init`. -/
def saveStage (stage : MilterStage) (table : Table) : Option Table :=
  if stage = .init then some table else vtableRename table "stage" "laststage"

/-- `milter_common_init`, behind the creation of the private data in the stage
`init`. -/
def milterCommonInit (ctx : Nat) (stage : MilterStage) (queueId : Option Bytes)
    (mp : MilterPriv) : Option MilterPriv :=
  (saveStage stage mp.table).map fun table =>
    { mp with table := lookupQueueId queueId (vtableSetv table (stageSymbols ctx stage)) }

def stringOrNull : Option Bytes → Value
  | none => .nil .string
  | some text => .string (text.takeWhile (· ≠ 0))

/-- What one of the callbacks does between `milter_common_init` and
`milter_acl`: it changes fields of the private data and sets symbols.  There
are none where it returns early. -/
structure Handler where
  stage : MilterStage
  advance : MilterPriv → MilterPriv
  symbols : MilterPriv → Option (List (String × Value))

def milterUnknown (cmd : Bytes) : Handler where
  stage := .unknown
  advance mp := mp
  symbols _ := some [("unknown_command", .string cmd)]

def milterHelo (helostr : Bytes) : Handler where
  stage := .helo
  advance mp := mp
  symbols _ := some [("helo", .string helostr)]

def milterEnvfrom (argv : Bytes) : Handler where
  stage := .envfrom
  advance mp := mp
  symbols _ := do
    let (address, domain) ← envelopeAddress argv
    return [("envfrom", .string argv), ("envfrom_addr", .string address),
      ("envfrom_domain", .string domain)]

def milterEnvrcpt (argv : Bytes) : Handler where
  stage := .envrcpt
  advance mp := { mp with recipients := mp.recipients + 1 }
  symbols mp := do
    let (address, domain) ← envelopeAddress argv
    return [("envrcpt", .string argv), ("envrcpt_addr", .string address),
      ("envrcpt_domain", .string domain), ("recipients", .int mp.recipients)]

def milterData : Handler where
  stage := .data
  advance mp := mp
  symbols mp := some [("recipients", .int mp.recipients)]

def milterHeader (headerf headerv : Bytes) : Handler where
  stage := .header
  advance mp :=
    { mp with
      header := some (mp.header.getD [] ++ headerLine headerf headerv)
      headerlen := mp.headerlen + (headerLine headerf headerv).length }
  symbols _ :=
    some ([("header_name", .string headerf), ("header_value", .string headerv)] ++
      (if strcasecmp headerf (cstr "Message-ID") then
        [("message_id", .string (utilStrdupenc headerv))] else []) ++
      (if strcasecmp headerf (cstr "Subject") then [("subject", .string headerv)] else []))

def milterEoh : Handler where
  stage := .eoh
  advance mp := mp
  symbols mp := some [("headers", stringOrNull mp.header), ("headers_size", .int mp.headerlen)]

def milterBody (chunk : Bytes) : Handler where
  stage := .body
  advance mp :=
    { mp with body := some (mp.body.getD [] ++ chunk), bodylen := mp.bodylen + chunk.length }
  symbols _ := some []

def milterEom : Handler where
  stage := .eom
  advance mp := { mp with eomComplete := 1 }
  symbols mp :=
    some [("body_size", .int mp.bodylen), ("message_size", .int (mp.bodylen + mp.headerlen + 2)),
      ("body", stringOrNull mp.body), ("eom_complete", .int mp.eomComplete)]

def milterAbort : Handler where
  stage := .abort
  advance mp := mp
  symbols _ := some []

def Callback.handler : Callback → Handler
  | .unknown cmd => milterUnknown cmd
  | .helo helostr => milterHelo helostr
  | .envfrom argv => milterEnvfrom argv
  | .envrcpt argv => milterEnvrcpt argv
  | .data => milterData
  | .header headerf headerv => milterHeader headerf headerv
  | .eoh => milterEoh
  | .body chunk => milterBody chunk
  | .eom => milterEom
  | .abort => milterAbort

/-- `milter_eom` and `milter_abort` call `milter_priv_clear_msg`. -/
def Callback.endsMessage : Callback → Bool
  | .eom => true
  | .abort => true
  | _ => false

/-- The private data as the ACL of the callback finds it, or as the callback
leaves it if it does not get so far. -/
def prepare (ctx : Nat) (call : Call) (mp : MilterPriv) : Option (MilterPriv × Bool) := do
  let mp ← milterCommonInit ctx call.callback.handler.stage call.queueId mp
  let mp := call.callback.handler.advance mp
  match call.callback.handler.symbols mp with
  | none => return (mp, false)
  | some symbols => return ({ mp with table := vtableSetv mp.table symbols }, true)

/-- The recipient that `milter_envrcpt` appends to `recipient_list`. -/
def acceptedRecipient (call : Call) : Option Bytes :=
  match call.callback with
  | .envrcpt argv =>
      match envelopeAddress argv, sfsistat call.acl.action with
      | some (address, _), .continue => some address
      | some (address, _), .accept => some address
      | _, _ => none
  | _ => none

/-- What follows `milter_acl` in the callbacks. -/
def complete (call : Call) (mp : MilterPriv) : Option MilterPriv :=
  match acceptedRecipient call with
  | some address => do
      let table ← vtableListAppendNew mp.table "recipient_list" (.string address)
      return { mp with table }
  | none => if call.callback.endsMessage then some (milterPrivClearMsg mp) else some mp

/-- One callback after `milter_connect`. -/
def milterCallback (ctx : Nat) (mp : MilterPriv) (call : Call) : Option MilterPriv := do
  let (mp, ready) ← prepare ctx call mp
  if ready then complete call (milterAcl call.callback.handler.stage call.acl mp).2
  else some mp

/-- What `milter_connect` knows of the client once its address is converted. -/
structure Client where
  hostname : Bytes
  ipv6 : Int
  hostaddr : Option Addr
  hostaddrStr : Bytes
  origin : Bytes

/-- What `milter_init_stage` and `milter_connect` get from outside.  There is no
client where `milter_connect` gives up on its address. -/
structure Connect where
  id : Bytes
  now : Int
  initQueueId : Option Bytes
  initAcl : AclRun
  queueId : Option Bytes
  acl : AclRun
  client : Option Client

def clientSymbols (client : Client) : List (String × Value) :=
  [("hostname", .string client.hostname), ("ipv6", .int client.ipv6),
    ("hostaddr", match client.hostaddr with
      | none => .nil .addr
      | some address => .scalar (.addr address)),
    ("hostaddr_str", .string client.hostaddrStr), ("origin", .string client.origin),
    ("eom_complete", .int 0)]

def milterInitStage (ctx : Nat) (connect : Connect) : Option MilterPriv := do
  let mp ← milterCommonInit ctx .init connect.initQueueId milterPrivCreate
  let table := vtableSetv mp.table [("id", .string connect.id), ("received", .int connect.now)]
  return (milterAcl .init connect.initAcl { mp with table }).2

def milterConnect (ctx : Nat) (connect : Connect) : Option MilterPriv := do
  let mp ← milterInitStage ctx connect
  let mp ← milterCommonInit ctx .connect connect.queueId mp
  match connect.client with
  | none => return mp
  | some client =>
      let table := vtableSetv mp.table (clientSymbols client)
      return (milterAcl .connect connect.acl { mp with table }).2

def milterRun (ctx : Nat) (mp : MilterPriv) : List Call → Option MilterPriv
  | [] => some mp
  | call :: rest => (milterCallback ctx mp call).bind fun next => milterRun ctx next rest

/-- The private data after `milter_connect` and the given callbacks. -/
def milterSession (ctx : Nat) (connect : Connect) (calls : List Call) : Option MilterPriv :=
  (milterConnect ctx connect).bind fun mp => milterRun ctx mp calls

end Mopher.Milter
