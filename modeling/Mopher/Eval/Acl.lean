import Mopher.Eval.Exp

/-!
# Rules and actions

Model of `acl` of `acl.c` with the actions `jump`, `call`, `set`, `log` and
`tarpit` and with the reply of a rule.  The handlers of `greylist`, of message
modifications and of `pipe` are parameters: what such an action does to the
mailspec and how it answers.  So are the time that `tarpit` spends asleep and
what libmilter makes of a reply.
-/

set_option autoImplicit false

namespace Mopher

inductive ExternalAction where
  | greylist (id : Nat)
  | mod (id : Nat)
  | pipe (id : Nat)
deriving Repr, DecidableEq

/-- `aa_type` and `aa_data`; a `plain` action has no handler. -/
inductive AclAction where
  | plain (type : AclActionType)
  | jump (table : String)
  | call (table : String)
  | set (exp : Exp)
  | log (message : Exp) (level : Option Exp)
  | tarpit (delay : Exp)
  | external (action : ExternalAction)

def AclAction.type : AclAction → AclActionType
  | .plain type => type
  | .jump _ => .jump
  | .call _ => .call
  | .set _ => .set
  | .log _ _ => .log
  | .tarpit _ => .tarpit
  | .external (.greylist _) => .greylist
  | .external (.mod _) => .mod
  | .external (.pipe _) => .pipe

structure AclReply where
  code : Exp
  xcode : Option Exp
  message : Exp

structure AclRule where
  expression : Option Exp
  action : AclAction
  reply : Option AclReply
  filename : Bytes
  line : Int

/-- The stages in which an action is allowed: `acl_action_handlers`. -/
def actionStages : AclActionType → StageMask
  | .error => 0
  | .null => msAny ||| MilterStage.init.mask
  | .none => msAny ||| MilterStage.init.mask
  | .return => msAny ||| MilterStage.init.mask
  | .continue => msAny ||| MilterStage.init.mask
  | .reject => msAny
  | .discard => msAny
  | .accept => msAny
  | .tempfail => msAny
  | .jump => msAny ||| MilterStage.init.mask
  | .call => msAny ||| MilterStage.init.mask
  | .set => msAny ||| MilterStage.init.mask
  | .log => msAny ||| MilterStage.init.mask
  | .greylist => msOffEnvrcpt
  | .tarpit => msAny
  | .mod => MilterStage.eom.mask
  | .pipe => MilterStage.eom.mask

/-- `acl_stati`. -/
def aclStatus : AclActionType → Bytes
  | .error => cstr "ERROR"
  | .null => cstr "NULL"
  | .none => cstr "NONE"
  | .return => cstr "RETURN"
  | .continue => cstr "CONTINUE"
  | .reject => cstr "REJECT"
  | .discard => cstr "DISCARD"
  | .accept => cstr "ACCEPT"
  | .tempfail => cstr "TEMPFAIL"
  | .jump => cstr "JUMP"
  | .call => cstr "CALL"
  | .set => cstr "SET"
  | .log => cstr "LOG"
  | .greylist => cstr "GREYLIST"
  | .tarpit => cstr "TARPIT"
  | .mod => cstr "MOD"
  | .pipe => cstr "PIPE"

/-- How the naps of `tarpit` end. -/
inductive TarpitEnd where
  | done
  | stopped
  | aborted
deriving Repr, DecidableEq

structure AclEnv extends Env where
  tables : String → Option (List AclRule)
  logLevel : Int
  sleep : Int → World → TarpitEnd
  external : ExternalAction → StageMask → World → World × AclActionType
  setReply : World → Bytes → Option Bytes → Bytes → Bool

inductive AclCommand where
  | exp (c : Command)
  | logLevel (o : Obj)
  | log (level : Int) (o : Obj)
  | tarpit (o : Obj)
  | external (action : ExternalAction) (stage : StageMask)
  | setReply (code : Bytes) (xcode : Option Bytes) (message : Bytes)
  | matched (stage : StageMask) (rule : Nat) (filename : Bytes) (line : Int)
      (response : AclActionType)

abbrev AclCommand.Response : AclCommand → Type
  | .exp c => c.Response
  | .logLevel _ => Int
  | .log _ _ => Bool
  | .tarpit _ => AclActionType
  | .external _ _ => AclActionType
  | .setReply _ _ _ => Bool
  | .matched _ _ _ _ _ => Unit

/-! ## The handler -/

def aclLoglen : Nat := 1024

/-- `acl_log` renders everything but a string. -/
def renders (libc : Libc) (v : Value) : Bool :=
  v.type = .string || (varDumpData libc aclLoglen v).isSome

/-- The end of `tarpit`: the time is added to what was spent before. -/
def tarpitDelayed (w : World) (delay : Int) : World :=
  let total :=
    match vtableGet w.symbols "tarpit_delayed" with
    | some (.scalar (.int stored)) => wrapLong (stored + delay)
    | _ => delay
  { w with symbols := vtableSet w.symbols "tarpit_delayed" (.int total) }

/-- `tarpit` once its expression was evaluated. -/
def tarpit (env : AclEnv) (v : Value) (w : World) : Except Fault (AclActionType × World) :=
  match v with
  | .scalar (.int delay) =>
      if delay ≤ 0 then .ok (.none, w)
      else if (vtableGet w.symbols "milter_ctx").isNone then .ok (.error, w)
      else
        match env.sleep delay w with
        | .stopped => .ok (.error, w)
        | .aborted => .ok (.tempfail, w)
        | .done => .ok (.none, tarpitDelayed w delay)
  | .nil .int => .error .nullRead
  | _ => .ok (.error, w)

/-- `acl_match_symbols`. -/
def aclMatchSymbols : List String :=
  ["acl_matched", "acl_stage_matched", "acl_rule", "acl_filename", "acl_line", "acl_response"]

def matchSymbols (stage : StageMask) (rule : Nat) (filename : Bytes) (line : Int)
    (response : AclActionType) : List (String × Value) :=
  [("acl_matched", .int 1), ("acl_stage_matched", .int stage), ("acl_rule", .int rule),
    ("acl_filename", .string filename), ("acl_line", .int line),
    ("acl_response", .string (aclStatus response))]

/-- `acl_match` for a rule that matched; the first match of a stage stays. -/
def aclMatch (w : World) (stage : StageMask) (rule : Nat) (filename : Bytes) (line : Int)
    (response : AclActionType) : World :=
  let kept :=
    match vtableGet w.symbols "acl_matched", vtableGet w.symbols "acl_stage_matched" with
    | some (.scalar (.int matched)), some (.scalar (.int stageMatched)) =>
        !(decide (stageMatched < stage)) && matched != 0
    | _, _ => false
  if kept then w
  else { w with symbols := vtableSetv w.symbols (matchSymbols stage rule filename line response) }

def aclStep (env : AclEnv) (c : AclCommand) (w : World) : Except Fault (c.Response × World) :=
  match c with
  | .exp c => step env.toEnv c w
  | .logLevel o => (varIntval env.libc (o.value w)).map fun level => (level, w)
  | .log _ o => .ok (renders env.libc (o.value w), w)
  | .tarpit o => tarpit env (o.value w) w
  | .external action stage =>
      let (w, response) := env.external action stage w
      .ok (response, w)
  | .setReply code xcode message => .ok (env.setReply w code xcode message, w)
  | .matched stage rule filename line response =>
      .ok ((), aclMatch w stage rule filename line response)

/-! ## The program -/

abbrev AclM := Prog AclCommand AclCommand.Response

def aclCommand (c : AclCommand) : AclM c.Response := Prog.issue c

def liftExp {α : Type} (p : EvalM α) : AclM α :=
  match p with
  | .pure a => .pure a
  | .call c next => .call (.exp c) fun r => liftExp (next r)

section Program
variable (env : AclEnv)

def aclLogMessage (level : Int) (message : Exp) : AclM AclActionType := do
  match ← liftExp (expEval message) with
  | none => return .error
  | some o =>
      let rendered : Bool ← aclCommand (.log level o)
      return if rendered then .none else .error

def aclLog (message : Exp) (level : Option Exp) : AclM AclActionType := do
  match level with
  | none => aclLogMessage env.logLevel message
  | some level =>
      match ← liftExp (expEval level) with
      | none => return .error
      | some o =>
          let level : Int ← aclCommand (.logLevel o)
          aclLogMessage level message

def aclSet (exp : Exp) : AclM AclActionType := do
  match ← liftExp (expEval exp) with
  | none => return .error
  | some _ => return .none

def aclTarpit (delay : Exp) : AclM AclActionType := do
  match ← liftExp (expEval delay) with
  | none => return .error
  | some o => aclCommand (.tarpit o)

/-- `acl_eval_reply`; `none` is a null pointer. -/
def aclEvalReply (exp : Exp) : AclM (Option Bytes) := do
  match ← liftExp (expEval exp) with
  | none => return none
  | some o =>
      let v : Value ← aclCommand (.exp (.value o))
      return if v.isNull then none else (stringData env.libc v).join

/-- The end of `acl_set_reply`, once the code was accepted. -/
def aclSendReply (code : Bytes) (reply : AclReply) : AclM Bool := do
  match ← aclEvalReply env reply.message with
  | none => return false
  | some message =>
      match reply.xcode with
      | none => aclCommand (.setReply code none message)
      | some exp =>
          match ← aclEvalReply env exp with
          | none => return false
          | some xcode => aclCommand (.setReply code (some xcode) message)

/-- `acl_set_reply`: a reply to an action that takes none is ignored. -/
def aclSetReply (reply : AclReply) (type : AclActionType) : AclM Bool := do
  match ← aclEvalReply env reply.code with
  | none => return false
  | some code =>
      match type with
      | .reject => if code.head? = some 53 then aclSendReply env code reply else return false
      | .tempfail => if code.head? = some 52 then aclSendReply env code reply else return false
      | .greylist => if code.head? = some 52 then aclSendReply env code reply else return false
      | _ => return true

/-- The handler of an action.  `nested` is `acl` for the tables that `jump` and
`call` name. -/
def aclHandle (nested : String → AclM AclActionType) (stage : StageMask) :
    AclAction → AclM AclActionType
  | .plain type => return type
  | .jump table => do
      let response ← nested table
      return if response = .none then .continue else response
  | .call table => nested table
  | .set exp => aclSet exp
  | .log message level => aclLog env message level
  | .tarpit delay => aclTarpit delay
  | .external action => aclCommand (.external action stage)

/-- The end of the loop body of `acl`, for an action that ends the table. -/
def aclRespond (stage : StageMask) (number : Nat) (rule : AclRule) (response : AclActionType) :
    AclM AclActionType := do
  let sent ←
    match rule.reply with
    | none => pure true
    | some reply => aclSetReply env reply response
  if sent then
    let _ : Unit ← aclCommand (.matched stage number rule.filename rule.line response)
    return response
  else return .error

/-- The loop of `acl` over the rules of a table. -/
def aclRules (nested : String → AclM AclActionType) (stage : StageMask) :
    Nat → List AclRule → AclM AclActionType
  | _, [] => return .none
  | number, rule :: rest => do
      let holds ← liftExp (expIsTrue rule.expression)
      if holds = 0 then aclRules nested stage (number + 1) rest
      else if holds = -1 then return .error
      else if actionStages rule.action.type &&& stage = 0 then return .error
      else
        match ← aclHandle env nested stage rule.action with
        | .none => aclRules nested stage (number + 1) rest
        | .return => return .none
        | .error => return .error
        | response => aclRespond env stage number rule response

/-- `acl`; the number is how deep the recursion may still go. -/
def acl (stage : StageMask) : Nat → String → AclM AclActionType
  | 0, _ => return .error
  | depth + 1, table =>
      match env.tables table with
      | none => return .none
      | some rules => aclRules env (acl stage depth) stage 1 rules

/-- A call with depth 0 may go down to `MAX_RECURSION`. -/
def aclDepth : Nat := 255

end Program

end Mopher
