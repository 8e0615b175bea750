import Mopher.Lib.NodeGraph
import Mopher.Eval.Exp

/-!
# Statements and the nodes they are parsed to

Model of the semantic actions of `acl_yacc.y` for expressions and statements and of the
functions of `exp.c` that they call.  A node is an `exp_t`; its address is its place in
the order of creation.  The parser reduces an expression after its operands, from left
to right.

`exp_symbol` returns the node that a name was defined as, and not a copy.  `exp_list`
appends to its first operand where this is a list already.

What is parsed is a syntax tree here, so the model has every expression that the grammar
has, and more: an operand of a comma needs no parentheses to be one.
-/

set_option autoImplicit false

namespace Mopher.Parser

inductive UnaryOp where
  | not
  | isNull
  | isSet

inductive BinaryOp where
  | assign
  | connective (op : Connective)
  | apply (op : Operation)

/-- `exp_t`, with `ex_type` and what `ex_data` points to. -/
inductive Node where
  | parentheses (inner : Nat)
  | constant (value : Value)
  | list (items : List Nat)
  | symbol (name : String)
  | function (f : Builtin) (args : Option Nat)
  | unary (op : UnaryOp) (operand : Nat)
  | binary (op : BinaryOp) (left right : Nat)
  | var (name : String)
  | macroRef (name : String)
  | ternary (condition yes no : Nat)

/-- The alternatives of `exp` in the grammar. -/
inductive ParseTree where
  | parentheses (inner : ParseTree)
  | comma (left right : ParseTree)
  | unary (op : UnaryOp) (operand : ParseTree)
  | binary (op : BinaryOp) (left right : ParseTree)
  | ternary (condition yes no : ParseTree)
  | var (name : String)
  | constant (value : Value)
  | symbol (name : String)
  | function (name : String) (args : ParseTree)
  | functionNoArgs (name : String)
  | macroRef (name : String)

/-- A rule with the expressions of its condition, its action and its reply, in the order
in which they are written, or a definition. -/
inductive Statement where
  | rule (exps : List ParseTree)
  | define (name : String) (exp : ParseTree)

/-- What `acl_symbol_lookup` and `acl_function_lookup` find. -/
structure Registered where
  symbols : String → Bool
  functions : String → Option Builtin

/-- The nodes, `exp_defs` and the expressions of the rules. -/
structure State where
  nodes : List Node
  defs : String → Option Nat
  rules : List (List Nat)

def expCreate (s : State) (node : Node) : State × Nat :=
  ({ s with nodes := s.nodes ++ [node] }, s.nodes.length)

/-- `exp_symbol`; `none` is a parser error. -/
def expSymbol (registered : Registered) (s : State) (name : String) : Option (State × Nat) :=
  match s.defs name with
  | some n => some (s, n)
  | none => if registered.symbols name then some (expCreate s (.symbol name)) else none

def expList (s : State) (list exp : Nat) : State × Nat :=
  match s.nodes[list]? with
  | some (.list items) => ({ s with nodes := s.nodes.set list (.list (items ++ [exp])) }, list)
  | _ => expCreate s (.list [list, exp])

/-- `exp_operation` with two operands: only a variable can be assigned to. -/
def expOperation (s : State) (op : BinaryOp) (left right : Nat) : Option (State × Nat) :=
  match op, s.nodes[left]? with
  | .assign, some (.var _) => some (expCreate s (.binary op left right))
  | .assign, _ => none
  | _, _ => some (expCreate s (.binary op left right))

def expFunction (registered : Registered) (s : State) (name : String) (args : Option Nat) :
    Option (State × Nat) :=
  (registered.functions name).map fun f => expCreate s (.function f args)

/-- `exp_define`; a name is defined once. -/
def expDefine (s : State) (name : String) (exp : Nat) : Option State :=
  if (s.defs name).isSome then none else some { s with defs := Function.update s.defs name (some exp) }

section Parse
variable (registered : Registered)

/-- The actions of `exp`: the node that an expression is parsed to. -/
def parseExp (s : State) : ParseTree → Option (State × Nat)
  | .parentheses inner => do
      let (s, n) ← parseExp s inner
      return expCreate s (.parentheses n)
  | .comma left right => do
      let (s, l) ← parseExp s left
      let (s, r) ← parseExp s right
      return expList s l r
  | .unary op operand => do
      let (s, n) ← parseExp s operand
      return expCreate s (.unary op n)
  | .binary op left right => do
      let (s, l) ← parseExp s left
      let (s, r) ← parseExp s right
      expOperation s op l r
  | .ternary condition yes no => do
      let (s, c) ← parseExp s condition
      let (s, y) ← parseExp s yes
      let (s, n) ← parseExp s no
      return expCreate s (.ternary c y n)
  | .var name => some (expCreate s (.var name))
  | .constant value => some (expCreate s (.constant value))
  | .symbol name => expSymbol registered s name
  | .function name args => do
      let (s, n) ← parseExp s args
      expFunction registered s name (some n)
  | .functionNoArgs name => expFunction registered s name none
  | .macroRef name => some (expCreate s (.macroRef name))

def parseExps (s : State) : List ParseTree → Option (State × List Nat)
  | [] => some (s, [])
  | exp :: rest => do
      let (s, n) ← parseExp registered s exp
      let (s, ns) ← parseExps s rest
      return (s, n :: ns)

/-- The actions of `statement`. -/
def parseStatement (s : State) : Statement → Option State
  | .rule exps => do
      let (s, roots) ← parseExps registered s exps
      return { s with rules := s.rules ++ [roots] }
  | .define name exp => do
      let (s, n) ← parseExp registered s exp
      expDefine s name n

/-- `none` is a parser error. -/
def parse (statements : List Statement) : Option State :=
  statements.foldlM (parseStatement registered) ⟨[], fun _ => none, []⟩

end Parse

/-! ## The expression of a node -/

def Node.children : Node → List Nat
  | .parentheses inner => [inner]
  | .list items => items
  | .function _ args => args.toList
  | .unary _ operand => [operand]
  | .binary _ left right => [left, right]
  | .ternary condition yes no => [condition, yes, no]
  | _ => []

def UnaryOp.exp : UnaryOp → Exp → Exp
  | .not => .not
  | .isNull => .isNull
  | .isSet => .isSet

/-- The left operand of `=` is an `EX_VARIABLE`. -/
def BinaryOp.exp : BinaryOp → Exp → Exp → Option Exp
  | .assign, .var name, right => some (.assign name right)
  | .assign, _, _ => none
  | .connective op, left, right => some (.connective op left right)
  | .apply op, left, right => some (.operation op left right)

/-- What `exp_eval` goes through when it is called with the node. -/
def Node.exp (exp : Nat → Option Exp) (self : Nat) : Node → Option Exp
  | .parentheses inner => (exp inner).map .parentheses
  | .constant _ => some (.constant self)
  | .list items => (items.mapM exp).map .list
  | .symbol name => some (.symbol name)
  | .function f none => some (.function f none)
  | .function f (some args) => (exp args).map fun e => .function f (some e)
  | .unary op operand => (exp operand).map op.exp
  | .binary op left right => (exp left).bind fun l => (exp right).bind fun r => op.exp l r
  | .var name => some (.var name)
  | .macroRef name => some (.macroRef name)
  | .ternary condition yes no =>
      (exp condition).bind fun c => (exp yes).bind fun y => (exp no).map fun n => .ternary c y n

theorem mapM_mono {f g : Nat → Option Exp} (items : List Nat) : ∀ {es : List Exp},
    (∀ c ∈ items, ∀ e, f c = some e → g c = some e) → items.mapM f = some es →
      items.mapM g = some es := by
  induction items with
  | nil => intro es _ made; exact made
  | cons item rest ih =>
      intro es same made
      simp only [List.mapM_cons, Option.bind_eq_bind, Option.bind_eq_some_iff, Option.pure_def,
        Option.some.injEq] at made ⊢
      obtain ⟨e, first, es', others, rfl⟩ := made
      refine ⟨e, same item List.mem_cons_self e first, es', ?_, rfl⟩
      exact ih (fun c member => same c (List.mem_cons_of_mem _ member)) others

theorem mapM_strict {f : Nat → Option Exp} (items : List Nat) : ∀ {es : List Exp},
    items.mapM f = some es → (∀ c ∈ items, (f c).isSome = true) ∧ es.length = items.length := by
  induction items with
  | nil =>
      intro es made
      cases made
      exact ⟨by simp, rfl⟩
  | cons item rest ih =>
      intro es made
      simp only [List.mapM_cons, Option.bind_eq_bind, Option.bind_eq_some_iff, Option.pure_def,
        Option.some.injEq] at made
      obtain ⟨e, first, es', others, rfl⟩ := made
      obtain ⟨all, length⟩ := ih others
      refine ⟨?_, by simp [length]⟩
      intro c member
      rcases List.mem_cons.mp member with rfl | later
      · simp [first]
      · exact all c later

theorem mapM_total {f : Nat → Option Exp} (items : List Nat) : (∀ c ∈ items, (f c).isSome = true) →
    (items.mapM f).isSome = true := by
  induction items with
  | nil => intro _; rfl
  | cons item rest ih =>
      intro all
      obtain ⟨e, first⟩ := Option.isSome_iff_exists.mp (all item List.mem_cons_self)
      obtain ⟨es, others⟩ :=
        Option.isSome_iff_exists.mp (ih fun c member => all c (List.mem_cons_of_mem _ member))
      simp [List.mapM_cons, first, others]

/-- Nodes as a graph. -/
def expNodes : NodeKind Node Exp where
  children := Node.children
  build := Node.exp
  mono := by
    intro f g self node e same made
    cases node with
    | parentheses inner =>
        obtain ⟨t, found, rfl⟩ := Option.map_eq_some_iff.mp made
        simp [Node.exp, same inner (by simp [Node.children]) t found]
    | list items =>
        obtain ⟨ts, found, rfl⟩ := Option.map_eq_some_iff.mp made
        exact Option.map_eq_some_iff.mpr ⟨ts, mapM_mono items same found, rfl⟩
    | function b args =>
        cases args with
        | none => exact made
        | some args =>
            obtain ⟨t, found, rfl⟩ := Option.map_eq_some_iff.mp made
            simp [Node.exp, same args (by simp [Node.children]) t found]
    | unary op operand =>
        obtain ⟨t, found, rfl⟩ := Option.map_eq_some_iff.mp made
        simp [Node.exp, same operand (by simp [Node.children]) t found]
    | binary op left right =>
        obtain ⟨l, first, rest⟩ := Option.bind_eq_some_iff.mp made
        obtain ⟨r, second, final⟩ := Option.bind_eq_some_iff.mp rest
        simp [Node.exp, same left (by simp [Node.children]) l first,
          same right (by simp [Node.children]) r second, final]
    | ternary condition yes no =>
        obtain ⟨c, first, rest⟩ := Option.bind_eq_some_iff.mp made
        obtain ⟨y, second, rest'⟩ := Option.bind_eq_some_iff.mp rest
        obtain ⟨n, third, rfl⟩ := Option.map_eq_some_iff.mp rest'
        simp [Node.exp, same condition (by simp [Node.children]) c first,
          same yes (by simp [Node.children]) y second, same no (by simp [Node.children]) n third]
    | constant value => exact made
    | symbol name => exact made
    | var name => exact made
    | macroRef name => exact made
  strict := by
    intro f self node e made
    cases node with
    | parentheses inner =>
        obtain ⟨t, found, rfl⟩ := Option.map_eq_some_iff.mp made
        simp [Node.children, found]
    | list items =>
        obtain ⟨ts, found, rfl⟩ := Option.map_eq_some_iff.mp made
        exact (mapM_strict items found).1
    | function b args =>
        cases args with
        | none => simp [Node.children]
        | some args =>
            obtain ⟨t, found, rfl⟩ := Option.map_eq_some_iff.mp made
            simp [Node.children, found]
    | unary op operand =>
        obtain ⟨t, found, rfl⟩ := Option.map_eq_some_iff.mp made
        simp [Node.children, found]
    | binary op left right =>
        obtain ⟨l, first, rest⟩ := Option.bind_eq_some_iff.mp made
        obtain ⟨r, second, final⟩ := Option.bind_eq_some_iff.mp rest
        simp [Node.children, first, second]
    | ternary condition yes no =>
        obtain ⟨c, first, rest⟩ := Option.bind_eq_some_iff.mp made
        obtain ⟨y, second, rest'⟩ := Option.bind_eq_some_iff.mp rest
        obtain ⟨n, third, rfl⟩ := Option.map_eq_some_iff.mp rest'
        simp [Node.children, first, second, third]
    | constant value => simp [Node.children]
    | symbol name => simp [Node.children]
    | var name => simp [Node.children]
    | macroRef name => simp [Node.children]

end Mopher.Parser
