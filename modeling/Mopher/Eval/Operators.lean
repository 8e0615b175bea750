import Mopher.Eval.VarOps
import Mopher.Symbol

/-!
# Operators and functions of expressions

Model of the operators of `exp.c` and of the functions that `string.c`,
`base64.c`, `random.c` and `base.c` register.  An evaluation passes pointers around: to the
variables of the mailspec and of the expression tree, which other rules see too,
and to fresh variables of its own.  `Obj` is such a pointer.  Values are read
when an operator is applied, so an operand that was changed in place since it
was evaluated is seen as it is by then.  Memory that was freed is not modelled.
-/

set_option autoImplicit false

namespace Mopher

/-- A variable that outlives the evaluation: a symbol or a variable of the
mailspec, an `EX_CONSTANT`, or a constant of `acl_constant_register`. -/
inductive Root where
  | symbol (name : String)
  | variable (name : String)
  | constant (id : Nat)
  | registered (name : String)
deriving Repr, DecidableEq

/-- The variables that outlive an evaluation, and `random_seed`. -/
structure World where
  symbols : Table
  vars : Table
  constants : Nat → Value
  registered : String → Value
  seed : Nat

/-- What an evaluation returns: a pointer to a stored variable, a variable of
its own, or a list of its own that holds pointers. -/
inductive Obj where
  | stored (root : Root)
  | temp (value : Value)
  | list (items : List (Option Obj))

/-- A pointer to a variable that does not exist is never made. -/
def World.read (w : World) : Root → Value
  | .symbol name => (w.symbols name).getD (.nil .null)
  | .variable name => (w.vars name).getD (.nil .null)
  | .constant id => w.constants id
  | .registered name => w.registered name

def World.write (w : World) (root : Root) (value : Value) : World :=
  match root with
  | .symbol name => { w with symbols := vtableSet w.symbols name value }
  | .variable name => { w with vars := vtableSet w.vars name value }
  | .constant id => { w with constants := Function.update w.constants id value }
  | .registered name => { w with registered := Function.update w.registered name value }

mutual

def Obj.value (w : World) : Obj → Value
  | .stored root => w.read root
  | .temp value => value
  | .list items => .list (Obj.values w items)

def Obj.values (w : World) : List (Option Obj) → List (Option Value)
  | [] => []
  | none :: rest => none :: Obj.values w rest
  | some o :: rest => some (o.value w) :: Obj.values w rest

end

def expEmpty : Value := .nil .int

def expTrue : Value := .int 1

def expFalse : Value := .int 0

def expBoolean (b : Bool) : Value := if b then expTrue else expFalse

/-! ## Operators -/

inductive CompareOp where
  | lt
  | gt
  | le
  | ge
  | eq
  | ne
deriving Repr, DecidableEq

inductive Operation where
  | compare (op : CompareOp)
  | regex (negated : Bool)
  | isIn
  | math (op : MathOp)
deriving Repr, DecidableEq

/-- The `switch` of `exp_compare` for a result of `var_compare`. -/
def compareHolds (op : CompareOp) (cmp : Int) : Bool :=
  match op with
  | .lt => cmp == -1
  | .gt => cmp == 1
  | .le => cmp == -1 || cmp == 0
  | .ge => cmp == 0 || cmp == 1
  | .eq => cmp == 0
  | .ne => cmp == -1 || cmp == 1

section Operators
variable (libc : Libc)

/-- `exp_compare`; `none` is a null pointer, as an operand and as the result. -/
def expCompare (op : CompareOp) (left right : Option Value) : Except Fault (Option Value) :=
  match left, right with
  | some l, some r =>
      if l.isNull || r.isNull then .ok (some expEmpty)
      else
        match varCompare libc l r with
        | .error f => .error f
        | .ok none => .ok none
        | .ok (some cmp) =>
            if cmp = -1 ∨ cmp = 0 ∨ cmp = 1 then .ok (some (expBoolean (compareHolds op cmp)))
            else .ok none
  | _, _ => .ok (some expEmpty)

def Value.text? : Value → Option Bytes
  | .scalar (.string s) => some s
  | _ => none

/-- The data pointer of a value after it was made a string; the outer `none` is
a failed cast. -/
def stringData (v : Value) : Option (Option Bytes) :=
  if v.type = .string then some v.text? else (varCastCopy libc .string v).map Value.text?

/-- `exp_eval_regex`.  A pattern without upper case letters ignores case. -/
def expEvalRegex (negated : Bool) (left right : Option Value) : Except Fault (Option Value) :=
  match left, right with
  | some l, some r =>
      if l.isNull || r.isNull then .ok (some expEmpty)
      else
        match stringData libc l, stringData libc r with
        | some (some text), some (some pattern) =>
            match libc.regex (!pattern.any isUpper) pattern text with
            | none => .ok none
            | some found => .ok (some (expBoolean (found != negated)))
        | some _, some _ => .error .nullRead
        | _, _ => .ok none
  | _, _ => .ok (some expEmpty)

/-- The loop of `exp_eval_in`.  A comparison that fails leaves `cmp` as it was. -/
def inLoop (needle : Value) : List (Option Value) → Int → Except Fault Bool
  | [], _ => .ok false
  | none :: _, _ => .ok false
  | some item :: rest, cmp =>
      match varCompare libc needle item with
      | .error f => .error f
      | .ok result => if result.getD cmp = 0 then .ok true else inLoop needle rest (result.getD cmp)

/-- `exp_eval_in`; `cmp` starts with what is on the stack. -/
def expEvalIn (stack : Int) (needle haystack : Option Value) : Except Fault (Option Value) :=
  match needle, haystack with
  | some n, some h =>
      if n.isNull || h.isNull then .ok (some expEmpty)
      else
        match h with
        | .list items => (inLoop libc n items stack).map fun found => some (expBoolean found)
        | _ => .ok none
  | _, _ => .ok (some expEmpty)

def wrapLong (n : Int) : Int := Int.bmod n (2 ^ 64)

def expMathInt (op : MathOp) (left right : Value) : Except Fault (Option Value) :=
  match left, right with
  | .scalar (.int l), .scalar (.int r) =>
      match op with
      | .plus => .ok (some (.int (wrapLong (l + r))))
      | .minus => .ok (some (.int (wrapLong (l - r))))
      | .times => .ok (some (.int (wrapLong (l * r))))
      | .div =>
          if r = 0 ∨ (l = longMin ∧ r = -1) then .error .trap else .ok (some (.int (Int.tdiv l r)))
      | .mod =>
          if r = 0 ∨ (l = longMin ∧ r = -1) then .error .trap else .ok (some (.int (Int.tmod l r)))
  | _, _ => .ok (some expEmpty)

def expMathFloat (op : MathOp) (left right : Value) : Except Fault (Option Value) :=
  match left, right with
  | .scalar (.float l), .scalar (.float r) =>
      match op with
      | .mod => .ok none
      | _ => .ok (some (.scalar (.float (libc.floatMath op l r))))
  | _, _ => .ok (some expEmpty)

def expStrlen : Nat := 1024

def expMathString (op : MathOp) (left right : Value) : Except Fault (Option Value) :=
  let text := left.text?.getD (cstr "(null)") ++ right.text?.getD (cstr "(null)")
  match op with
  | .plus => .ok (if expStrlen - 1 < text.length then none else some (.string text))
  | _ => .ok none

/-- The end of `exp_eval_operation`: both sides are made one type first. -/
def expMath (op : MathOp) (left right : Option Value) : Except Fault (Option Value) :=
  match left, right with
  | some l, some r =>
      let type := maxType l r
      let l := if l.type = type then some l else varCastCopy libc type l
      let r := if r.type = type then some r else varCastCopy libc type r
      match l, r with
      | some l, some r =>
          match type with
          | .int => expMathInt op l r
          | .float => expMathFloat libc op l r
          | .string => expMathString op l r
          | _ => .ok none
      | _, _ => .ok none
  | _, _ => .ok (some expEmpty)

/-- The variable under a pointer is changed in place. -/
def Obj.overwrite (o : Obj) (value : Value) (w : World) : Obj × World :=
  match o with
  | .stored root => (.stored root, w.write root value)
  | _ => (.temp value, w)

/-- `exp_addr_prefix` masks the address of its operand and returns the operand. -/
def expAddrPrefix (address length : Obj) (w : World) : Except Fault (Option Obj × World) :=
  match address.value w, length.value w with
  | .scalar (.addr a), .scalar (.int n) =>
      let (o, w) := address.overwrite (.scalar (.addr (utilAddrPrefix a n))) w
      .ok (some o, w)
  | _, _ => .error .nullRead

def isPrefix (left right : Option Value) : Bool :=
  match left, right with
  | some l, some r => l.type = .addr && r.type = .int
  | _, _ => false

/-- The operators of `exp_eval_operation` that evaluate both operands. -/
def expOperation (stack : Int) (op : Operation) (left right : Option Obj) (w : World) :
    Except Fault (Option Obj × World) :=
  let l := left.map (Obj.value w)
  let r := right.map (Obj.value w)
  let pack (result : Except Fault (Option Value)) : Except Fault (Option Obj × World) :=
    result.map fun v => (v.map .temp, w)
  match op with
  | .compare op => pack (expCompare libc op l r)
  | .regex negated => pack (expEvalRegex libc negated l r)
  | .isIn => pack (expEvalIn libc stack l r)
  | .math op =>
      match op, left, right with
      | .div, some address, some length =>
          if isPrefix l r then expAddrPrefix address length w else pack (expMath libc .div l r)
      | op, _, _ => pack (expMath libc op l r)

end Operators

/-! ## Functions -/

inductive Builtin where
  | strlen
  | lower
  | strcmp
  | mailaddr
  | base64
  | base64Decode
  | random
  | type
  | size
  | cast
  | nil
  | fail
deriving Repr, DecidableEq

/-- The number of arguments of an `AF_SIMPLE` function, all of type `VT_STRING`;
the others are `AF_COMPLEX`. -/
def Builtin.argc? : Builtin → Option Nat
  | .strlen => some 1
  | .lower => some 1
  | .strcmp => some 2
  | .mailaddr => some 1
  | .base64 => some 1
  | .base64Decode => some 1
  | .random => some 0
  | _ => none

/-- An argument: an object, or an item of a list that is stored. -/
inductive Arg where
  | obj (o : Obj)
  | item (root : Root) (index : Nat)

def Value.items : Value → List (Option Value)
  | .list items => items
  | _ => []

def Arg.value (w : World) : Arg → Value
  | .obj o => o.value w
  | .item root index => ((w.read root).items.getD index none).getD (.nil .null)

/-- The variable that an argument points to is changed in place. -/
def Arg.overwrite (a : Arg) (value : Value) (w : World) : World :=
  match a with
  | .obj o => (o.overwrite value w).2
  | .item root index => w.write root (.list ((w.read root).items.set index (some value)))

/-- The arguments that the items of a stored list are. -/
def storedItems (root : Root) (items : List (Option Value)) : List (Option Arg) :=
  items.mapIdx fun index item => item.map fun _ => .item root index

/-- The argument list of `exp_eval_function`: a single argument becomes a list of
one.  A list without data is a null pointer there. -/
def functionArgs (args : Option Obj) (w : World) : Except Fault (List (Option Arg)) :=
  match args with
  | none => .ok []
  | some (.list items) => .ok (items.map (Option.map .obj))
  | some (.temp value) =>
      match value with
      | .list items => .ok (items.map (Option.map fun v => .obj (.temp v)))
      | .nil .list => .error .nullRead
      | _ => .ok [some (.obj (.temp value))]
  | some (.stored root) =>
      match w.read root with
      | .list items => .ok (storedItems root items)
      | .nil .list => .error .nullRead
      | _ => .ok [some (.obj (.stored root))]

section Functions
variable (libc : Libc)

/-- The loop of `exp_eval_function_simple`.  It ends at a `NULL` item, and the
entries that it did not reach are `NULL`; `none` is a cast that failed. -/
def prepareArgv (w : World) : List (Option Arg) → Option (List (Option Bytes))
  | [] => some []
  | none :: rest => some (List.replicate (rest.length + 1) none)
  | some a :: rest =>
      match stringData libc (a.value w), prepareArgv w rest with
      | some data, some argv => some (data :: argv)
      | _, _ => none

/-- `string_tolower` works in place on an argument that is a string already;
any other argument was copied. -/
def stringTolower (args : List (Option Arg)) (text : Bytes) (w : World) : World :=
  match args with
  | some a :: _ =>
      if (a.value w).type = .string then a.overwrite (.string (utilTolower text)) w else w
  | _ => w

def buflen : Nat := 1024

/-- The callback of an `AF_SIMPLE` function. -/
def functionSimple (f : Builtin) (args : List (Option Arg)) (argv : List (Option Bytes))
    (w : World) : Except Fault (Option Obj × World) :=
  match f, argv with
  | .strlen, [some text] => .ok (some (.temp (.int text.length)), w)
  | .strlen, _ => .error .nullRead
  | .strcmp, [some left, some right] => .ok (some (.temp (.int (libc.strcmp left right))), w)
  | .strcmp, _ => .error .nullRead
  | .lower, [some text] =>
      .ok (some (.temp (.string (utilTolower text))), stringTolower args text w)
  | .lower, _ => .ok (some (.temp (.nil .string)), w)
  | .mailaddr, [some text] => .ok ((utilStrmail buflen text).map fun s => .temp (.string s), w)
  | .base64, [some text] => .ok (some (.temp (.string (libc.base64Encode text))), w)
  | .base64, _ => .ok (some (.temp expEmpty), w)
  | .base64Decode, [some text] =>
      if text = cstr "null" then .ok (none, w)
      else .ok ((libc.base64Decode text).map fun data => .temp (.scalar (.blob data)), w)
  | .base64Decode, _ => .ok (some (.temp expEmpty), w)
  | .random, _ =>
      let (number, seed) := libc.randR w.seed
      .ok (some (.temp (.int number)), { w with seed := seed })
  | _, _ => .ok (none, w)

/-- The type that `cast` makes of its first argument: the enumeration keeps the
lower half of the number. -/
def VarType.ofLong (n : Int) : VarType :=
  match (n % 2 ^ 32).toNat with
  | 0 => .null
  | 1 => .table
  | 2 => .list
  | 3 => .addr
  | 4 => .int
  | 5 => .float
  | 6 => .pointer
  | 7 => .string
  | 8 => .blob
  | code => .other code

/-- The callback of an `AF_COMPLEX` function. -/
def functionComplex (f : Builtin) (args : List (Option Arg)) (w : World) :
    Except Fault (Option Obj) :=
  match f, args with
  | .type, [none] => .ok (some (.temp (.string (cstr "NULL"))))
  | .type, [some a] => .ok (some (.temp (.string (varTypeString (a.value w).type))))
  | .size, [none] => .ok (some (.temp (.int 0)))
  | .size, [some a] => .ok (some (.temp (.int (varDataSize (a.value w)))))
  | .cast, [some type, some var] =>
      match type.value w with
      | .scalar (.int n) => .ok ((varCastCopy libc (VarType.ofLong n) (var.value w)).map .temp)
      | .nil .int => .error .nullRead
      | _ => .ok none
  | .nil, _ => .ok (some (.temp expEmpty))
  | _, _ => .ok none

/-- `exp_eval_function` after the arguments were evaluated. -/
def expFunction (f : Builtin) (args : Option Obj) (w : World) : Except Fault (Option Obj × World) :=
  match functionArgs args w with
  | .error fault => .error fault
  | .ok args =>
      match f.argc? with
      | none => (functionComplex libc f args w).map fun result => (result, w)
      | some argc =>
          if args.length = argc then
            match prepareArgv libc w args with
            | none => .ok (none, w)
            | some argv => functionSimple libc f args argv w
          else .ok (none, w)

end Functions

end Mopher
