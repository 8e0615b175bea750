import Mopher.Lib.Prog
import Mopher.Eval.Operators

/-!
# Evaluation of expressions

Model of `exp_eval` of `exp.c`.  The evaluator is a program of commands: looking
a symbol up, following a pointer to see whether it is true, applying an operator
and so on.  Everything that reads or changes a variable is a command, so the
trace of a run lists every operand in the state it had when it was used.
-/

set_option autoImplicit false

namespace Mopher

inductive Connective where
  | and
  | or
deriving Repr, DecidableEq

/-- `exp_t`.  An `EX_OPERATION` has one constructor for each of the branches of
`exp_eval_operation`; the left operand of `=` is an `EX_VARIABLE`, which the
parser checks.  `id` names the variable of an `EX_CONSTANT`. -/
inductive Exp where
  | parentheses (inner : Exp)
  | constant (id : Nat)
  | list (items : List Exp)
  | symbol (name : String)
  | function (f : Builtin) (args : Option Exp)
  | assign (name : String) (value : Exp)
  | isSet (operand : Exp)
  | not (operand : Exp)
  | isNull (operand : Exp)
  | connective (op : Connective) (left right : Exp)
  | operation (op : Operation) (left right : Exp)
  | var (name : String)
  | macroRef (name : String)
  | ternary (condition yes no : Exp)

/-- What an evaluation does to the world.  `visit` has no effect: it records
that `exp_eval` was entered. -/
inductive Command where
  | visit (e : Exp)
  | symbol (name : String)
  | var (name : String)
  | stage
  | getsymval (name : String)
  | isSet (name : String)
  | assign (name : String) (o : Obj)
  | truth (o : Obj)
  | value (o : Obj)
  | operation (op : Operation) (left right : Option Obj)
  | function (f : Builtin) (args : Option Obj)

abbrev Command.Response : Command → Type
  | .visit _ => Unit
  | .symbol _ => Option Obj
  | .var _ => Option Obj
  | .stage => Option StageMask
  | .getsymval _ => Option Bytes
  | .isSet _ => Bool
  | .assign _ _ => Bool
  | .truth _ => Option Bool
  | .value _ => Value
  | .operation _ _ _ => Option Obj
  | .function _ _ => Option Obj

/-! ## The handler -/

/-- `stack` is the number that `exp_eval_in` finds in a variable that it does
not initialise; `getsymval` is `smfi_getsymval`. -/
structure Env where
  libc : Libc
  stack : Int
  registry : String → Option (AclSymbol World Obj)
  registered : ∀ name stages value, registry name = some (.constant stages value) →
    value = .stored (.registered name)
  getsymval : String → Option Bytes

def mailspecStage (w : World) : Option StageMask :=
  match w.symbols "stage" with
  | some (.scalar (.int n)) => some n.toNat
  | _ => none

def worldOps : MailspecOps World Obj where
  lookup w name := (w.symbols name).map fun _ => .stored (.symbol name)
  setNull w name := { w with symbols := vtableSetNull w.symbols name }
  stage := mailspecStage

/-- The name of a variable without its `$`. -/
def variableName (name : String) : String :=
  String.ofList (name.toList.dropWhile (· == '$'))

def aclVariableGet (w : World) (name : String) : Option Obj :=
  (w.vars (variableName name)).map fun _ => .stored (.variable (variableName name))

/-- `acl_variable_assign` saves a copy. -/
def aclVariableAssign (w : World) (name : String) (v : Value) : Bool × World :=
  match varCopy v with
  | none => (false, w)
  | some copy => (true, { w with vars := vtableSet w.vars (variableName name) copy })

/-- The truth status of a value: `none` when `v_data` is `NULL`. -/
def truthStatus (libc : Libc) (v : Value) : Option Bool :=
  if v.isNull then none else some (varTrue libc v)

def step (env : Env) (c : Command) (w : World) : Except Fault (c.Response × World) :=
  match c with
  | .visit _ => .ok ((), w)
  | .symbol name =>
      let (w, o) := aclSymbolGet worldOps env.registry w name
      .ok (o, w)
  | .var name => .ok (aclVariableGet w name, w)
  | .stage => .ok (mailspecStage w, w)
  | .getsymval name => .ok (env.getsymval name, w)
  | .isSet name => .ok ((w.symbols name).isSome, w)
  | .assign name o => .ok (aclVariableAssign w name (o.value w))
  | .truth o => .ok (truthStatus env.libc (o.value w), w)
  | .value o => .ok (o.value w, w)
  | .operation op left right => expOperation env.libc env.stack op left right w
  | .function f args => expFunction env.libc f args w

/-! ## The evaluator -/

abbrev EvalM := Prog Command Command.Response

def command (c : Command) : EvalM c.Response := Prog.issue c

def truth (o : Obj) : EvalM (Option Bool) := command (.truth o)

def symbolGet (name : String) : EvalM (Option Obj) := command (.symbol name)

/-- The end of `exp_bool`, where neither operand was returned as it is. -/
def boolResult (op : Connective) (left right : Option Bool) : Option Value :=
  match left, right with
  | none, none => some expEmpty
  | some l, some r =>
      match op with
      | .and => some (expBoolean (l && r))
      | .or => some (expBoolean (l || r))
  | left, right =>
      let known := left.getD (right.getD false)
      match op with
      | .and => if known then some expEmpty else some expFalse
      | .or => if known then none else some expEmpty

/-- `exp_bool` once the left operand was evaluated. -/
def expBoolRight (op : Connective) (left : Option Bool) (right : EvalM (Option Obj)) :
    EvalM (Option Obj) := do
  match ← right with
  | none => return none
  | some r =>
      let rightStatus ← truth r
      -- whatever is not known to be true counts as false here
      if op = .or ∧ left ≠ some true then return some r
      else return (boolResult op left rightStatus).map .temp

def expBool (op : Connective) (left right : EvalM (Option Obj)) : EvalM (Option Obj) := do
  match ← left with
  | none => return none
  | some l =>
      let leftStatus ← truth l
      if op = .or ∧ leftStatus = some true then return some l
      else if op = .and ∧ leftStatus = some false then return some (.temp expFalse)
      else expBoolRight op leftStatus right

def expNot (operand : Option Obj) : EvalM (Option Obj) := do
  match operand with
  | none => return some (.temp expEmpty)
  | some o =>
      match ← truth o with
      | none => return some (.temp expEmpty)
      | some b => return some (.temp (expBoolean (!b)))

def expIsNull (operand : Option Obj) : EvalM (Option Obj) := do
  match operand with
  | none => return some (.temp expTrue)
  | some o => return some (.temp (expBoolean (← truth o).isNone))

def expIsset (operand : Exp) : EvalM (Option Obj) :=
  match operand with
  | .symbol name => do
      let bound : Bool ← command (.isSet name)
      return some (.temp (expBoolean bound))
  | _ => return none

def expAssign (name : String) (value : Option Obj) : EvalM (Option Obj) := do
  match value with
  | none => return none
  | some o =>
      let stored : Bool ← command (.assign name o)
      return if stored then some o else none

def expEvalVariable (name : String) : EvalM (Option Obj) := do
  let value : Option Obj ← command (.var name)
  return some (value.getD (.temp expEmpty))

/-- `milter_macro_lookup` needs two symbols before it asks for the macro. -/
def expEvalMacro (name : String) : EvalM (Option Obj) := do
  let stage : Option StageMask ← command .stage
  match stage with
  | none => return none
  | some _ =>
      let ctx ← symbolGet "milter_ctx"
      let stagename ← symbolGet "stagename"
      if ctx.isNone || stagename.isNone then return some (.temp expEmpty)
      else
        let value : Option Bytes ← command (.getsymval name)
        return some (.temp (value.elim expEmpty .string))

def expEvalTernary (condition yes no : EvalM (Option Obj)) : EvalM (Option Obj) := do
  match ← condition with
  | none => return none
  | some o => if (← truth o) = some true then yes else no

def expApply (op : Operation) (left right : EvalM (Option Obj)) : EvalM (Option Obj) := do
  let l ← left
  let r ← right
  command (.operation op l r)

def expCall (f : Builtin) (args : EvalM (Option Obj)) : EvalM (Option Obj) := do
  match ← args with
  | none => return none
  | some o => command (.function f (some o))

/-- Entering `exp_eval` is recorded. -/
def entered (e : Exp) (body : EvalM (Option Obj)) : EvalM (Option Obj) := do
  let _ : Unit ← command (.visit e)
  body

mutual

def expEval (e : Exp) : EvalM (Option Obj) :=
  entered e <|
    match e with
    | .parentheses inner => expEval inner
    | .constant id => return some (.stored (.constant id))
    | .list items => do return some (.list (← expEvalList items))
    | .symbol name => symbolGet name
    | .function f none => command (.function f none)
    | .function f (some args) => expCall f (expEval args)
    | .assign name value => do expAssign name (← expEval value)
    | .isSet operand => expIsset operand
    | .not operand => do expNot (← expEval operand)
    | .isNull operand => do expIsNull (← expEval operand)
    | .connective op left right => expBool op (expEval left) (expEval right)
    | .operation op left right => expApply op (expEval left) (expEval right)
    | .var name => expEvalVariable name
    | .macroRef name => expEvalMacro name
    | .ternary condition yes no => expEvalTernary (expEval condition) (expEval yes) (expEval no)

/-- `exp_eval_list` keeps a null pointer for an item that failed. -/
def expEvalList : List Exp → EvalM (List (Option Obj))
  | [] => return []
  | item :: rest => do
      let o ← expEval item
      let os ← expEvalList rest
      return o :: os

end

/-- `exp_is_true`; an absent expression is true. -/
def expIsTrue (e : Option Exp) : EvalM Int := do
  match e with
  | none => return 1
  | some e =>
      match ← expEval e with
      | none => return -1
      | some o => return if (← truth o) = some true then 1 else 0

/-! ## A small system to try expressions on -/

def plainLibc : Libc where
  floatLess _ _ := false
  floatIsZero p := p == 0
  floatMath _ left _ := left
  floatOfInt _ := 0
  floatToInt _ := 0
  strtof _ := 0
  floatText _ := cstr "0.00"
  pointerText _ := cstr "(0x1)"
  tableText _ := cstr "\x7b\x7d"
  inetNtop _ := none
  sockaddrBytes _ := []
  strcmp := strcmpSign
  memcmp := strcmpSign
  regex _ _ _ := none
  base64Encode text := text
  base64Decode text := some text
  randR seed := (seed, seed + 1)

/-- No symbol is registered and no macro is defined. -/
def plainEnv : Env where
  libc := plainLibc
  stack := 0
  registry _ := none
  registered _ _ _ found := by cases found
  getsymval _ := none

/-- An empty mailspec, and the constants of an expression. -/
def plainWorld (constants : List Value) : World where
  symbols _ := none
  vars _ := none
  constants id := constants.getD id (.nil .int)
  registered _ := .nil .int
  seed := 0

end Mopher
