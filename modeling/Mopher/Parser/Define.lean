import Mopher.Parser.Build

/-!
# Definitions that stay what they are

A name that was defined as a list without parentheses is bound to a list node.  Where it
is the first operand of a comma, `exp_list` appends to that node, and so to what the name
and every rule that uses it stand for; when the name is the second operand, too, the
list contains itself.

Where no such name is the first operand of a comma, `exp_list` only ever appends to
lists that the expression it is reducing has made, and that no other node names.  So no
node that was there before changes, and every node stands for an expression.
-/

set_option autoImplicit false

namespace Mopher.Parser

/-! ## The condition -/

/-- A name that stands for a list. -/
def ParseTree.namesList (lists : List String) : ParseTree → Bool
  | .symbol name => decide (name ∈ lists)
  | _ => false

/-- The expression is parsed to a list node. -/
def ParseTree.isList (lists : List String) : ParseTree → Bool
  | .comma _ _ => true
  | e => e.namesList lists

/-- Somewhere in the expression a comma follows a name that stands for a list. -/
def ParseTree.appends (lists : List String) : ParseTree → Bool
  | .parentheses inner => inner.appends lists
  | .comma left right => left.namesList lists || left.appends lists || right.appends lists
  | .unary _ operand => operand.appends lists
  | .binary _ left right => left.appends lists || right.appends lists
  | .ternary condition yes no => condition.appends lists || yes.appends lists || no.appends lists
  | .function _ args => args.appends lists
  | _ => false

def Statement.appends (lists : List String) : Statement → Bool
  | .rule exps => exps.any (ParseTree.appends lists)
  | .define _ exp => exp.appends lists

/-- The names that stand for lists after the statement. -/
def Statement.lists (lists : List String) : Statement → List String
  | .rule _ => lists
  | .define name exp => if exp.isList lists then name :: lists else lists

/-- Some statement appends to a list that one before it has defined. -/
def appendsToDefinition (lists : List String) : List Statement → Bool
  | [] => false
  | statement :: rest => statement.appends lists || appendsToDefinition (statement.lists lists) rest

/-! ## What is claimed -/

/-- The node of a name, or of an expression of a rule. -/
def State.Root (s : State) (n : Nat) : Prop :=
  (∃ name, s.defs name = some n) ∨ ∃ rule ∈ s.rules, n ∈ rule

/-- Statements that come later leave the names and the rules what they are, and the
nodes have no cycle, so that every evaluation ends. -/
structure Immutable (registered : Registered) (statements : List Statement) : Prop where
  kept : ∀ front s s', front <+: statements → parse registered front = some s →
    parse registered statements = some s' →
    ∀ n, s.Root n → ∃ e, expNodes.HasTree s.nodes n e ∧ expNodes.HasTree s'.nodes n e
  acyclic : ∀ s, parse registered statements = some s → WellFounded (expNodes.Child s.nodes)

/-! ## Nodes that grow -/

/-- The only change that a node goes through. -/
def Node.GrowsTo : Node → Node → Prop
  | .list items, .list items' => items <+: items'
  | node, node' => node' = node

theorem Node.GrowsTo.refl (node : Node) : node.GrowsTo node := by
  cases node with
  | list items => exact List.prefix_refl items
  | _ => rfl

theorem Node.GrowsTo.trans {a b c : Node} (first : a.GrowsTo b) (second : b.GrowsTo c) : a.GrowsTo c := by
  cases a with
  | list items =>
      cases b with
      | list items' =>
          cases c with
          | list items'' => exact List.IsPrefix.trans first second
          | _ => cases second
      | _ => cases first
  | _ =>
      cases first
      exact second

def Grown (nodes nodes' : List Node) : Prop :=
  ∀ (n : Nat) (node : Node), nodes[n]? = some node →
    ∃ node', nodes'[n]? = some node' ∧ node.GrowsTo node'

theorem Grown.refl (nodes : List Node) : Grown nodes nodes :=
  fun _ node here => ⟨node, here, Node.GrowsTo.refl node⟩

theorem Grown.trans {a b c : List Node} (first : Grown a b) (second : Grown b c) : Grown a c := by
  intro n node here
  obtain ⟨node', here', grows⟩ := first n node here
  obtain ⟨node'', here'', grows'⟩ := second n node' here'
  exact ⟨node'', here'', grows.trans grows'⟩

theorem Grown.of_longer {nodes nodes' : List Node} (longer : nodes <+: nodes') : Grown nodes nodes' := by
  obtain ⟨added, rfl⟩ := longer
  intro n node here
  refine ⟨node, ?_, Node.GrowsTo.refl node⟩
  rw [List.getElem?_append_left (List.getElem?_eq_some_iff.mp here).1]
  exact here

theorem Grown.list {nodes nodes' : List Node} (grown : Grown nodes nodes') {n : Nat} {items : List Nat}
    (here : nodes[n]? = some (.list items)) :
    ∃ items', nodes'[n]? = some (.list items') ∧ items <+: items' := by
  obtain ⟨node, here', grows⟩ := grown n _ here
  cases node with
  | list items' => exact ⟨items', here', grows⟩
  | _ => cases grows

/-- A node that has grown to a list was a list. -/
theorem Grown.list_back {nodes nodes' : List Node} (grown : Grown nodes nodes') {n : Nat}
    (inside : n < nodes.length) {items' : List Nat} (here' : nodes'[n]? = some (.list items')) :
    ∃ items, nodes[n]? = some (.list items) ∧ items <+: items' := by
  obtain ⟨node', found, grows⟩ := grown n nodes[n] (List.getElem?_eq_getElem inside)
  rw [here'] at found
  cases found
  cases here : nodes[n] with
  | list items =>
      rw [here] at grows
      exact ⟨items, by rw [List.getElem?_eq_getElem inside, here], grows⟩
  | _ =>
      rw [here] at grows
      cases grows

theorem expCreate_grown (s : State) (node : Node) : Grown s.nodes (expCreate s node).1.nodes :=
  Grown.of_longer (List.prefix_append _ _)

theorem expList_grown (s : State) (list exp : Nat) : Grown s.nodes (expList s list exp).1.nodes := by
  unfold expList
  split
  · rename_i items here
    intro n node found
    by_cases same : n = list
    · subst same
      cases here.symm.trans found
      refine ⟨_, List.getElem?_set_self (List.getElem?_eq_some_iff.mp here).1, ?_⟩
      exact List.prefix_append items [exp]
    · refine ⟨node, ?_, Node.GrowsTo.refl node⟩
      rw [List.getElem?_set_ne (Ne.symm same)]
      exact found
  · exact expCreate_grown s _

/-- What parsing an expression leaves alone. -/
structure Extends (s s' : State) : Prop where
  nodes : Grown s.nodes s'.nodes
  defs : s'.defs = s.defs
  rules : s'.rules = s.rules

theorem Extends.refl (s : State) : Extends s s := ⟨Grown.refl _, rfl, rfl⟩

theorem Extends.trans {a b c : State} (first : Extends a b) (second : Extends b c) : Extends a c :=
  ⟨first.nodes.trans second.nodes, second.defs.trans first.defs, second.rules.trans first.rules⟩

theorem expCreate_extends (s : State) (node : Node) : Extends s (expCreate s node).1 :=
  ⟨expCreate_grown s node, rfl, rfl⟩

theorem expList_extends (s : State) (list exp : Nat) : Extends s (expList s list exp).1 := by
  refine ⟨expList_grown s list exp, ?_, ?_⟩
  · unfold expList
    split
    · rfl
    · rfl
  · unfold expList
    split
    · rfl
    · rfl

/-! ## How an expression is parsed -/

/-- One case for each production; `parseExp` as a relation. -/
inductive Parses (registered : Registered) : State → ParseTree → State → Nat → Prop where
  | parentheses {s s₁ : State} {inner : ParseTree} {n : Nat} (first : Parses registered s inner s₁ n) :
      Parses registered s (.parentheses inner) (expCreate s₁ (.parentheses n)).1 s₁.nodes.length
  | comma {s s₁ s₂ : State} {left right : ParseTree} {l r : Nat} (first : Parses registered s left s₁ l)
      (second : Parses registered s₁ right s₂ r) :
      Parses registered s (.comma left right) (expList s₂ l r).1 (expList s₂ l r).2
  | unary {s s₁ : State} {op : UnaryOp} {operand : ParseTree} {n : Nat}
      (first : Parses registered s operand s₁ n) :
      Parses registered s (.unary op operand) (expCreate s₁ (.unary op n)).1 s₁.nodes.length
  | binary {s s₁ s₂ : State} {op : BinaryOp} {left right : ParseTree} {l r : Nat}
      (first : Parses registered s left s₁ l) (second : Parses registered s₁ right s₂ r)
      (target : op = .assign → ∃ name, s₂.nodes[l]? = some (.var name)) :
      Parses registered s (.binary op left right) (expCreate s₂ (.binary op l r)).1 s₂.nodes.length
  | ternary {s s₁ s₂ s₃ : State} {condition yes no : ParseTree} {c y n : Nat}
      (first : Parses registered s condition s₁ c) (second : Parses registered s₁ yes s₂ y)
      (third : Parses registered s₂ no s₃ n) :
      Parses registered s (.ternary condition yes no) (expCreate s₃ (.ternary c y n)).1 s₃.nodes.length
  | var {s : State} {name : String} :
      Parses registered s (.var name) (expCreate s (.var name)).1 s.nodes.length
  | constant {s : State} {value : Value} :
      Parses registered s (.constant value) (expCreate s (.constant value)).1 s.nodes.length
  | macroRef {s : State} {name : String} :
      Parses registered s (.macroRef name) (expCreate s (.macroRef name)).1 s.nodes.length
  | defined {s : State} {name : String} {n : Nat} (found : s.defs name = some n) :
      Parses registered s (.symbol name) s n
  | symbol {s : State} {name : String} (unknown : s.defs name = none) :
      Parses registered s (.symbol name) (expCreate s (.symbol name)).1 s.nodes.length
  | function {s s₁ : State} {name : String} {f : Builtin} {args : ParseTree} {n : Nat}
      (first : Parses registered s args s₁ n) :
      Parses registered s (.function name args) (expCreate s₁ (.function f (some n))).1 s₁.nodes.length
  | functionNoArgs {s : State} {name : String} {f : Builtin} :
      Parses registered s (.functionNoArgs name) (expCreate s (.function f none)).1 s.nodes.length

section Parses
variable {registered : Registered}

theorem expOperation_eq {s s' : State} {op : BinaryOp} {left right n : Nat}
    (made : expOperation s op left right = some (s', n)) :
    expCreate s (.binary op left right) = (s', n) ∧
      (op = .assign → ∃ name, s.nodes[left]? = some (.var name)) := by
  unfold expOperation at made
  split at made
  · rename_i name here
    exact ⟨Option.some.inj made, fun _ => ⟨name, here⟩⟩
  · cases made
  · rename_i notAssign _
    exact ⟨Option.some.inj made, fun assign => (notAssign assign).elim⟩

theorem parseExp_parses (e : ParseTree) : ∀ {s s' : State} {n : Nat},
    parseExp registered s e = some (s', n) → Parses registered s e s' n := by
  induction e with
  | parentheses inner ih =>
      intro s s' n made
      obtain ⟨⟨s₁, m⟩, first, final⟩ := Option.bind_eq_some_iff.mp made
      cases final
      exact .parentheses (ih first)
  | comma left right ihLeft ihRight =>
      intro s s' n made
      obtain ⟨⟨s₁, l⟩, first, made⟩ := Option.bind_eq_some_iff.mp made
      obtain ⟨⟨s₂, r⟩, second, final⟩ := Option.bind_eq_some_iff.mp made
      have pair : expList s₂ l r = (s', n) := Option.some.inj final
      have parsed := Parses.comma (ihLeft first) (ihRight second)
      rw [pair] at parsed
      exact parsed
  | unary op operand ih =>
      intro s s' n made
      obtain ⟨⟨s₁, m⟩, first, final⟩ := Option.bind_eq_some_iff.mp made
      cases final
      exact .unary (ih first)
  | binary op left right ihLeft ihRight =>
      intro s s' n made
      obtain ⟨⟨s₁, l⟩, first, made⟩ := Option.bind_eq_some_iff.mp made
      obtain ⟨⟨s₂, r⟩, second, final⟩ := Option.bind_eq_some_iff.mp made
      obtain ⟨created, target⟩ := expOperation_eq final
      cases created
      exact .binary (ihLeft first) (ihRight second) target
  | ternary condition yes no ihCondition ihYes ihNo =>
      intro s s' n made
      obtain ⟨⟨s₁, c⟩, first, made⟩ := Option.bind_eq_some_iff.mp made
      obtain ⟨⟨s₂, y⟩, second, made⟩ := Option.bind_eq_some_iff.mp made
      obtain ⟨⟨s₃, m⟩, third, final⟩ := Option.bind_eq_some_iff.mp made
      cases final
      exact .ternary (ihCondition first) (ihYes second) (ihNo third)
  | var name =>
      intro s s' n made
      cases made
      exact .var
  | constant value =>
      intro s s' n made
      cases made
      exact .constant
  | symbol name =>
      intro s s' n made
      simp only [parseExp, expSymbol] at made
      split at made
      · rename_i m found
        cases made
        exact .defined found
      · rename_i unknown
        split at made
        · cases made
          exact .symbol unknown
        · cases made
  | function name args ih =>
      intro s s' n made
      obtain ⟨⟨s₁, m⟩, first, final⟩ := Option.bind_eq_some_iff.mp made
      obtain ⟨f, _, created⟩ := Option.map_eq_some_iff.mp final
      cases created
      exact .function (ih first)
  | functionNoArgs name =>
      intro s s' n made
      obtain ⟨f, _, created⟩ := Option.map_eq_some_iff.mp made
      cases created
      exact .functionNoArgs
  | macroRef name =>
      intro s s' n made
      cases made
      exact .macroRef

theorem Parses.extended {s s' : State} {e : ParseTree} {n : Nat} (parses : Parses registered s e s' n) :
    Extends s s' := by
  induction parses with
  | parentheses _ ih => exact ih.trans (expCreate_extends _ _)
  | comma _ _ ihLeft ihRight => exact ihLeft.trans (ihRight.trans (expList_extends _ _ _))
  | unary _ ih => exact ih.trans (expCreate_extends _ _)
  | binary _ _ _ ihLeft ihRight => exact ihLeft.trans (ihRight.trans (expCreate_extends _ _))
  | ternary _ _ _ ihCondition ihYes ihNo =>
      exact ihCondition.trans (ihYes.trans (ihNo.trans (expCreate_extends _ _)))
  | defined _ => exact Extends.refl _
  | function _ ih => exact ih.trans (expCreate_extends _ _)
  | _ => exact expCreate_extends _ _

end Parses

/-! ## Nothing that was there changes -/

def IsList (nodes : List Node) (n : Nat) : Prop := ∃ items, nodes[n]? = some (.list items)

/-- Every node stands for an expression, and the names that stand for lists are known. -/
structure Sound (lists : List String) (s : State) : Prop where
  whole : expNodes.Whole s.nodes
  defined : ∀ name n, s.defs name = some n → n < s.nodes.length ∧ (IsList s.nodes n ↔ name ∈ lists)
  known : ∀ name ∈ lists, (s.defs name).isSome = true
  ruled : ∀ rule ∈ s.rules, ∀ n ∈ rule, n < s.nodes.length

/-- The nodes that were there are the same, and no node came to name one of them that
only the reduction in progress knew of. -/
structure Built (s s' : State) : Prop where
  longer : s.nodes <+: s'.nodes
  whole : expNodes.Whole s'.nodes
  frame : ∀ k, k < s.nodes.length → (∀ name, s.defs name ≠ some k) →
    expNodes.Unreferenced s.nodes k → expNodes.Unreferenced s'.nodes k

/-- A node that a reduction may name: one that has a name, or one of its own. -/
def Owned (s s' : State) (n : Nat) : Prop :=
  n < s'.nodes.length ∧ ((∃ name, s.defs name = some n) ∨ s.nodes.length ≤ n)

section Built
variable {s s₁ s₂ : State}

theorem Built.refl (whole : expNodes.Whole s.nodes) : Built s s :=
  ⟨List.prefix_refl _, whole, fun _ _ _ unreferenced => unreferenced⟩

theorem Built.length (built : Built s s₁) : s.nodes.length ≤ s₁.nodes.length :=
  built.longer.length_le

theorem Built.trans (first : Built s s₁) (second : Built s₁ s₂) (defs : s₁.defs = s.defs) : Built s s₂ := by
  refine ⟨first.longer.trans second.longer, second.whole, ?_⟩
  intro k less unnamed unreferenced
  apply second.frame k (less.trans_le first.length)
  · rw [defs]
    exact unnamed
  · exact first.frame k less unnamed unreferenced

theorem Owned.apart {n k : Nat} (owned : Owned s s₁ n) (less : k < s.nodes.length)
    (unnamed : ∀ name, s.defs name ≠ some k) : k ≠ n := by
  rintro rfl
  rcases owned.2 with ⟨name, found⟩ | own
  · exact unnamed name found
  · omega

theorem Owned.later {n : Nat} (owned : Owned s s₁ n) (length : s₁.nodes.length ≤ s₂.nodes.length) :
    Owned s s₂ n :=
  ⟨owned.1.trans_le length, owned.2⟩

theorem Owned.earlier {n : Nat} (owned : Owned s₁ s₂ n) (built : Built s s₁) (defs : s₁.defs = s.defs) :
    Owned s s₂ n := by
  refine ⟨owned.1, ?_⟩
  rcases owned.2 with ⟨name, found⟩ | own
  · exact .inl ⟨name, by rw [← defs]; exact found⟩
  · exact .inr (built.length.trans own)

theorem IsList.longer_iff {n : Nat} (longer : s.nodes <+: s₁.nodes) (inside : n < s.nodes.length) :
    IsList s₁.nodes n ↔ IsList s.nodes n := by
  obtain ⟨added, same⟩ := longer
  have read : s₁.nodes[n]? = s.nodes[n]? := by
    rw [← same]
    exact List.getElem?_append_left inside
  simp only [IsList, read]

theorem Sound.built {lists : List String} (sound : Sound lists s) (built : Built s s₁)
    (extended : Extends s s₁) : Sound lists s₁ := by
  refine ⟨built.whole, ?_, ?_, ?_⟩
  · intro name n found
    rw [extended.defs] at found
    obtain ⟨inside, kind⟩ := sound.defined name n found
    refine ⟨inside.trans_le built.length, ?_⟩
    rw [IsList.longer_iff built.longer inside]
    exact kind
  · rw [extended.defs]
    exact sound.known
  · intro rule member n inside
    rw [extended.rules] at member
    exact (sound.ruled rule member n inside).trans_le built.length

/-- An expression is found for every node but `=`, when it is for the operands. -/
theorem Node.exp_total {f : Nat → Option Exp} (self : Nat) (node : Node)
    (all : ∀ c ∈ node.children, (f c).isSome = true)
    (target : ∀ left right, node = .binary .assign left right → ∃ name, f left = some (.var name)) :
    (node.exp f self).isSome = true := by
  cases node with
  | parentheses inner => simpa [Node.exp] using all inner (by simp [Node.children])
  | list items => simpa [Node.exp] using mapM_total items all
  | function b args =>
      cases args with
      | none => rfl
      | some args => simpa [Node.exp] using all args (by simp [Node.children])
  | unary op operand => simpa [Node.exp] using all operand (by simp [Node.children])
  | binary op left right =>
      obtain ⟨l, first⟩ := Option.isSome_iff_exists.mp (all left (by simp [Node.children]))
      obtain ⟨r, second⟩ := Option.isSome_iff_exists.mp (all right (by simp [Node.children]))
      cases op with
      | assign =>
          obtain ⟨name, found⟩ := target left right rfl
          simp [Node.exp, found, second, BinaryOp.exp]
      | connective op => simp [Node.exp, first, second, BinaryOp.exp]
      | apply op => simp [Node.exp, first, second, BinaryOp.exp]
  | ternary condition yes no =>
      obtain ⟨c, first⟩ := Option.isSome_iff_exists.mp (all condition (by simp [Node.children]))
      obtain ⟨y, second⟩ := Option.isSome_iff_exists.mp (all yes (by simp [Node.children]))
      obtain ⟨n, third⟩ := Option.isSome_iff_exists.mp (all no (by simp [Node.children]))
      simp [Node.exp, first, second, third]
  | constant value => rfl
  | symbol name => rfl
  | var name => rfl
  | macroRef name => rfl

/-- A new node. -/
theorem Built.create (built : Built s s₁) {node : Node} (operands : ∀ c ∈ node.children, Owned s s₁ c)
    (target : ∀ left right, node = .binary .assign left right → ∃ name, s₁.nodes[left]? = some (.var name)) :
    Built s (expCreate s₁ node).1 ∧ Owned s (expCreate s₁ node).1 s₁.nodes.length ∧
      expNodes.Unreferenced (expCreate s₁ node).1.nodes s₁.nodes.length := by
  have inside (c : Nat) (member : c ∈ node.children) : c < s₁.nodes.length := (operands c member).1
  have whole : expNodes.Whole (expCreate s₁ node).1.nodes := by
    refine built.whole.append inside ?_
    intro f found
    apply Node.exp_total
    · intro c member
      obtain ⟨t, tree⟩ := built.whole c (inside c member)
      rw [found c member t tree]
      rfl
    · rintro left right rfl
      obtain ⟨name, here⟩ := target left right rfl
      refine ⟨name, found left (by simp [expNodes, Node.children]) (.var name) ⟨1, ?_⟩⟩
      simp [NodeKind.follow, here, expNodes, Node.exp]
  refine ⟨⟨built.longer.trans (List.prefix_append _ _), whole, ?_⟩, ⟨?_, .inr built.length⟩, ?_⟩
  · intro k less unnamed unreferenced
    refine (built.frame k less unnamed unreferenced).append ?_
    intro member
    exact (operands k member).apart less unnamed rfl
  · simp [expCreate]
  · exact built.whole.unreferenced_new inside

end Built

/-- A list node that the reduction in progress has made is one that it may append to. -/
structure Parsed (lists : List String) (e : ParseTree) (s s' : State) (n : Nat) : Prop
    extends Built s s' where
  owned : Owned s s' n
  own : IsList s'.nodes n → e.namesList lists = false →
    s.nodes.length ≤ n ∧ expNodes.Unreferenced s'.nodes n

/-- An expression that is reduced to a new node. -/
theorem Built.parsed {s s₁ : State} {lists : List String} {e : ParseTree} (built : Built s s₁) {node : Node}
    (operands : ∀ c ∈ node.children, Owned s s₁ c)
    (target : ∀ left right, node = .binary .assign left right → ∃ name, s₁.nodes[left]? = some (.var name)) :
    Parsed lists e s (expCreate s₁ node).1 s₁.nodes.length := by
  obtain ⟨built', owned, unreferenced⟩ := built.create operands target
  exact ⟨built', owned, fun _ _ => ⟨built.length, unreferenced⟩⟩

/-- Two operands, one after the other. -/
theorem Parsed.both {lists : List String} {left right : ParseTree} {s s₁ s₂ : State} {l r : Nat}
    (first : Parsed lists left s s₁ l) (second : Parsed lists right s₁ s₂ r) (defs : s₁.defs = s.defs) :
    Built s s₂ ∧ Owned s s₂ l ∧ Owned s s₂ r :=
  ⟨first.toBuilt.trans second.toBuilt defs, first.owned.later second.toBuilt.length,
    second.owned.earlier first.toBuilt defs⟩

theorem set_longer {nodes nodes' : List Node} (longer : nodes <+: nodes') {l : Nat} (le : nodes.length ≤ l)
    (node : Node) : nodes <+: nodes'.set l node := by
  obtain ⟨added, rfl⟩ := longer
  rw [List.set_append_right _ _ le]
  exact List.prefix_append _ _

/-- `exp_list` with a first operand that is no name of a list. -/
theorem expList_parsed {lists : List String} {left right : ParseTree} {s s₁ s₂ : State} {l r : Nat}
    (defined : ∀ name n, s.defs name = some n → n < s.nodes.length)
    (first : Parsed lists left s s₁ l) (second : Parsed lists right s₁ s₂ r) (defs : s₁.defs = s.defs)
    (unnamed : left.namesList lists = false) :
    Parsed lists (.comma left right) s (expList s₂ l r).1 (expList s₂ l r).2 := by
  obtain ⟨built, ownedLeft, ownedRight⟩ := first.both second defs
  unfold expList
  split
  · rename_i items here
    have list : IsList s₁.nodes l := (IsList.longer_iff second.longer first.owned.1).mp ⟨items, here⟩
    obtain ⟨own, unreferenced⟩ := first.own list unnamed
    have unnamed' (name : String) : s₁.defs name ≠ some l := by
      intro found
      rw [defs] at found
      exact absurd (defined name l found) (by omega)
    have unreferenced' := second.frame l first.owned.1 unnamed' unreferenced
    have apart := second.owned.apart first.owned.1 unnamed'
    -- no item of the list is the list itself
    have items_apart (c : Nat) (member : c ∈ items ++ [r]) : c < s₂.nodes.length ∧ c ≠ l := by
      rcases List.mem_append.mp member with old | new
      · refine ⟨second.whole.child_bound ⟨_, here, old⟩, ?_⟩
        rintro rfl
        exact unreferenced' _ _ here old
      · cases List.mem_singleton.mp new
        exact ⟨second.owned.1, Ne.symm apart⟩
    refine ⟨⟨set_longer built.longer own _, ?_, ?_⟩, ?_, ?_⟩
    · refine second.whole.set ownedLeft.1 unreferenced' items_apart ?_
      intro f all
      exact Node.exp_total l (.list (items ++ [r])) all (by simp)
    · intro k less free noReference
      refine (built.frame k less free noReference).set l ?_
      intro member
      rcases List.mem_append.mp member with old | new
      · exact built.frame k less free noReference l _ here old
      · exact ownedRight.apart less free (List.mem_singleton.mp new)
    · exact ⟨by simpa using ownedLeft.1, .inr own⟩
    · intro _ _
      refine ⟨own, unreferenced'.set l ?_⟩
      intro member
      exact (items_apart l member).2 rfl
  · refine built.parsed ?_ (by simp)
    intro c member
    rcases List.mem_cons.mp member with rfl | member
    · exact ownedLeft
    · cases List.mem_singleton.mp member
      exact ownedRight

/-- By induction on how the expression is parsed. -/
theorem Parses.parsed {registered : Registered} {lists : List String} {s s' : State} {e : ParseTree} {n : Nat}
    (parses : Parses registered s e s' n) : Sound lists s → e.appends lists = false →
    Parsed lists e s s' n := by
  induction parses with
  | parentheses _ ih =>
      intro sound harmless
      have first := ih sound harmless
      exact first.toBuilt.parsed (by simpa [Node.children] using first.owned) (by simp)
  | @comma s s₁ s₂ left right l r first second ihLeft ihRight =>
      intro sound harmless
      simp only [ParseTree.appends, Bool.or_eq_false_iff] at harmless
      have parsedLeft := ihLeft sound harmless.1.2
      have parsedRight := ihRight (sound.built parsedLeft.toBuilt first.extended) harmless.2
      exact expList_parsed (fun name n found => (sound.defined name n found).1) parsedLeft parsedRight
        first.extended.defs harmless.1.1
  | unary _ ih =>
      intro sound harmless
      have first := ih sound harmless
      exact first.toBuilt.parsed (by simpa [Node.children] using first.owned) (by simp)
  | binary first second target ihLeft ihRight =>
      intro sound harmless
      simp only [ParseTree.appends, Bool.or_eq_false_iff] at harmless
      have parsedLeft := ihLeft sound harmless.1
      have parsedRight := ihRight (sound.built parsedLeft.toBuilt first.extended) harmless.2
      obtain ⟨built, ownedLeft, ownedRight⟩ := parsedLeft.both parsedRight first.extended.defs
      refine built.parsed ?_ ?_
      · intro c member
        rcases List.mem_cons.mp member with rfl | member
        · exact ownedLeft
        · cases List.mem_singleton.mp member
          exact ownedRight
      · intro left right same
        cases same
        exact target rfl
  | ternary first second third ihCondition ihYes ihNo =>
      intro sound harmless
      simp only [ParseTree.appends, Bool.or_eq_false_iff] at harmless
      have parsedCondition := ihCondition sound harmless.1.1
      have sound₁ := sound.built parsedCondition.toBuilt first.extended
      have parsedYes := ihYes sound₁ harmless.1.2
      have parsedNo := ihNo (sound₁.built parsedYes.toBuilt second.extended) harmless.2
      have defs := second.extended.defs.trans first.extended.defs
      obtain ⟨built, ownedCondition, ownedYes⟩ := parsedCondition.both parsedYes first.extended.defs
      refine (built.trans parsedNo.toBuilt defs).parsed ?_ (by simp)
      intro c member
      rcases List.mem_cons.mp member with rfl | member
      · exact ownedCondition.later parsedNo.toBuilt.length
      · rcases List.mem_cons.mp member with rfl | member
        · exact ownedYes.later parsedNo.toBuilt.length
        · cases List.mem_singleton.mp member
          exact parsedNo.owned.earlier built defs
  | @defined s name n found =>
      intro sound _
      obtain ⟨inside, kind⟩ := sound.defined name n found
      refine ⟨Built.refl sound.whole, ⟨inside, .inl ⟨name, found⟩⟩, ?_⟩
      intro list notNamed
      simp only [ParseTree.namesList, decide_eq_false_iff_not] at notNamed
      exact (notNamed (kind.mp list)).elim
  | function _ ih =>
      intro sound harmless
      have first := ih sound harmless
      exact first.toBuilt.parsed (by simpa [Node.children] using first.owned) (by simp)
  | _ =>
      intro sound _
      exact (Built.refl sound.whole).parsed (by simp [Node.children]) (by simp)

/-! ## Which names stand for lists -/

theorem not_isList_create {s : State} {node : Node} (other : ∀ items, node ≠ .list items) :
    ¬ IsList (expCreate s node).1.nodes s.nodes.length := by
  rintro ⟨items, here⟩
  have last : (expCreate s node).1.nodes[s.nodes.length]? = some node := List.getElem?_concat_length
  rw [last] at here
  exact other items (Option.some.inj here)

/-- An expression is parsed to a list exactly when it looks like one. -/
theorem Parses.isList {registered : Registered} {lists : List String} {s s' : State} {e : ParseTree} {n : Nat}
    (parses : Parses registered s e s' n) (sound : Sound lists s) :
    IsList s'.nodes n ↔ e.isList lists = true := by
  have created {s : State} {node : Node} {e : ParseTree} (other : ∀ items, node ≠ .list items)
      (notList : e.isList lists = false) :
      IsList (expCreate s node).1.nodes s.nodes.length ↔ e.isList lists = true := by
    rw [notList]
    exact iff_of_false (not_isList_create other) (by decide)
  cases parses with
  | comma first second =>
      rename_i s₁ s₂ left right l r
      refine iff_of_true ?_ rfl
      unfold expList
      split
      · rename_i items here
        exact ⟨_, List.getElem?_set_self (List.getElem?_eq_some_iff.mp here).1⟩
      · exact ⟨_, List.getElem?_concat_length⟩
  | defined found =>
      rename_i name
      rw [(sound.defined name n found).2]
      simp [ParseTree.isList, ParseTree.namesList]
  | symbol unknown =>
      rename_i name
      refine created (by simp) ?_
      simp only [ParseTree.isList, ParseTree.namesList, decide_eq_false_iff_not]
      intro member
      have some' := sound.known name member
      rw [unknown] at some'
      cases some'
  | _ => exact created (by simp) rfl

/-! ## Statements -/

section Statements
variable {registered : Registered}

theorem parseExps_built {lists : List String} (exps : List ParseTree) : ∀ {s s' : State} {roots : List Nat},
    Sound lists s → exps.any (ParseTree.appends lists) = false →
    parseExps registered s exps = some (s', roots) →
    Built s s' ∧ Extends s s' ∧ ∀ n ∈ roots, n < s'.nodes.length := by
  induction exps with
  | nil =>
      intro s s' roots sound _ made
      cases made
      exact ⟨Built.refl sound.whole, Extends.refl s, by simp⟩
  | cons exp rest ih =>
      intro s s' roots sound harmless made
      simp only [List.any_cons, Bool.or_eq_false_iff] at harmless
      obtain ⟨⟨s₁, n⟩, first, made⟩ := Option.bind_eq_some_iff.mp made
      obtain ⟨⟨s₂, ns⟩, others, final⟩ := Option.bind_eq_some_iff.mp made
      cases final
      have parses := parseExp_parses exp first
      have parsed := parses.parsed sound harmless.1
      obtain ⟨built, extended, inside⟩ :=
        ih (sound.built parsed.toBuilt parses.extended) harmless.2 others
      refine ⟨parsed.toBuilt.trans built parses.extended.defs, parses.extended.trans extended, ?_⟩
      intro m member
      rcases List.mem_cons.mp member with rfl | later
      · exact parsed.owned.1.trans_le built.length
      · exact inside m later

/-- What a statement leaves: the nodes that were there, the names and the rules. -/
structure Kept (s s' : State) : Prop where
  longer : s.nodes <+: s'.nodes
  roots : ∀ n, s.Root n → s'.Root n

theorem Kept.refl (s : State) : Kept s s := ⟨List.prefix_refl _, fun _ root => root⟩

theorem Kept.trans {a b c : State} (first : Kept a b) (second : Kept b c) : Kept a c :=
  ⟨first.longer.trans second.longer, fun n root => second.roots n (first.roots n root)⟩

theorem expDefine_eq {s s' : State} {name : String} {n : Nat} (made : expDefine s name n = some s') :
    s.defs name = none ∧ s' = { s with defs := Function.update s.defs name (some n) } := by
  unfold expDefine at made
  split at made
  · cases made
  · rename_i undefined
    exact ⟨by simpa using undefined, (Option.some.inj made).symm⟩

/-- A new name, for a list or for something else. -/
theorem Sound.define {lists : List String} {s : State} (sound : Sound lists s) {name : String} {n : Nat}
    (new : s.defs name = none) (inside : n < s.nodes.length) {list : Bool}
    (kind : IsList s.nodes n ↔ list = true) :
    Sound (if list then name :: lists else lists)
      { s with defs := Function.update s.defs name (some n) } := by
  have unlisted : name ∉ lists := by
    intro member
    have some' := sound.known name member
    rw [new] at some'
    cases some'
  have others {other : String} (distinct : other ≠ name) :
      other ∈ (if list then name :: lists else lists) ↔ other ∈ lists := by
    cases list with
    | true => simp [distinct]
    | false => simp
  refine ⟨sound.whole, ?_, ?_, sound.ruled⟩
  · intro other m found
    by_cases same : other = name
    · subst same
      simp only [Function.update_self, Option.some.injEq] at found
      subst found
      refine ⟨inside, kind.trans ?_⟩
      cases list with
      | true => simp
      | false => simp [unlisted]
    · simp only [Function.update_of_ne same] at found
      obtain ⟨inside', listed⟩ := sound.defined other m found
      exact ⟨inside', listed.trans (others same).symm⟩
  · intro other member
    by_cases same : other = name
    · subst same
      simp
    · simp only [Function.update_of_ne same]
      exact sound.known other ((others same).mp member)

theorem parseStatement_sound {lists : List String} {s s' : State} {statement : Statement}
    (sound : Sound lists s) (harmless : statement.appends lists = false)
    (made : parseStatement registered s statement = some s') :
    Sound (statement.lists lists) s' ∧ Kept s s' := by
  cases statement with
  | rule exps =>
      obtain ⟨⟨s₁, roots⟩, first, final⟩ := Option.bind_eq_some_iff.mp made
      cases final
      obtain ⟨built, extended, inside⟩ := parseExps_built exps sound harmless first
      have sound₁ := sound.built built extended
      refine ⟨⟨sound₁.whole, sound₁.defined, sound₁.known, ?_⟩, built.longer, ?_⟩
      · intro rule member n here
        rcases List.mem_append.mp member with old | new
        · exact sound₁.ruled rule old n here
        · cases List.mem_singleton.mp new
          exact inside n here
      · rintro n (⟨name, found⟩ | ⟨rule, member, here⟩)
        · exact .inl ⟨name, by rw [← found]; exact congrFun extended.defs name⟩
        · refine .inr ⟨rule, List.mem_append_left _ ?_, here⟩
          rw [extended.rules]
          exact member
  | define name exp =>
      obtain ⟨⟨s₁, n⟩, first, final⟩ := Option.bind_eq_some_iff.mp made
      have parses := parseExp_parses exp first
      have parsed := parses.parsed sound harmless
      have sound₁ := sound.built parsed.toBuilt parses.extended
      obtain ⟨new, rfl⟩ := expDefine_eq final
      refine ⟨sound₁.define new parsed.owned.1 (parses.isList sound), parsed.longer, ?_⟩
      rintro m (⟨other, found⟩ | ⟨rule, member, here⟩)
      · refine .inl ⟨other, ?_⟩
        have distinct : other ≠ name := by
          rintro rfl
          rw [parses.extended.defs, found] at new
          cases new
        simp only [Function.update_of_ne distinct, parses.extended.defs]
        exact found
      · refine .inr ⟨rule, ?_, here⟩
        rw [parses.extended.rules]
        exact member

/-- By induction on the statements. -/
theorem statements_sound (statements : List Statement) : ∀ {lists : List String} {s s' : State},
    Sound lists s → appendsToDefinition lists statements = false →
    statements.foldlM (parseStatement registered) s = some s' →
    Sound (statements.foldl Statement.lists lists) s' ∧ Kept s s' := by
  induction statements with
  | nil =>
      intro lists s s' sound _ made
      cases made
      exact ⟨sound, Kept.refl s⟩
  | cons statement rest ih =>
      intro lists s s' sound harmless made
      simp only [appendsToDefinition, Bool.or_eq_false_iff] at harmless
      rw [List.foldlM_cons] at made
      obtain ⟨s₁, first, others⟩ := Option.bind_eq_some_iff.mp made
      obtain ⟨sound₁, kept⟩ := parseStatement_sound sound harmless.1 first
      obtain ⟨final, kept'⟩ := ih sound₁ harmless.2 others
      exact ⟨final, kept.trans kept'⟩

end Statements

/-! ## A list that is appended to -/

/-- The list that some name stands for has become longer. -/
def Lengthened (s s' : State) : Prop :=
  ∃ name k items items', s.defs name = some k ∧ s.nodes[k]? = some (.list items) ∧
    s'.nodes[k]? = some (.list items') ∧ items.length < items'.length

/-- Names stand for nodes, and some of them for lists. -/
structure Names (lists : List String) (s : State) : Prop where
  inside : ∀ name k, s.defs name = some k → k < s.nodes.length
  list : ∀ name ∈ lists, ∃ k, s.defs name = some k ∧ IsList s.nodes k

theorem Sound.names {lists : List String} {s : State} (sound : Sound lists s) : Names lists s := by
  refine ⟨fun name k found => (sound.defined name k found).1, ?_⟩
  intro name member
  obtain ⟨k, found⟩ := Option.isSome_iff_exists.mp (sound.known name member)
  exact ⟨k, found, (sound.defined name k found).2.mpr member⟩

theorem Names.later {lists : List String} {s s₁ : State} (names : Names lists s) (extended : Extends s s₁) :
    Names lists s₁ := by
  constructor
  · intro name k found
    rw [extended.defs] at found
    obtain ⟨node, here, _⟩ :=
      extended.nodes k _ (List.getElem?_eq_getElem (names.inside name k found))
    exact (List.getElem?_eq_some_iff.mp here).1
  · intro name member
    obtain ⟨k, found, items, here⟩ := names.list name member
    obtain ⟨items', here', _⟩ := extended.nodes.list here
    exact ⟨k, by rw [extended.defs]; exact found, items', here'⟩

theorem Lengthened.later {s s₁ s₂ : State} (lengthened : Lengthened s s₁) (grown : Grown s₁.nodes s₂.nodes) :
    Lengthened s s₂ := by
  obtain ⟨name, k, items, items', found, here, here', less⟩ := lengthened
  obtain ⟨items'', here'', longer⟩ := grown.list here'
  exact ⟨name, k, items, items'', found, here, here'', less.trans_le longer.length_le⟩

theorem Lengthened.earlier {lists : List String} {s s₁ s₂ : State} (lengthened : Lengthened s₁ s₂)
    (names : Names lists s) (extended : Extends s s₁) : Lengthened s s₂ := by
  obtain ⟨name, k, items, items', found, here, here', less⟩ := lengthened
  rw [extended.defs] at found
  obtain ⟨items₀, here₀, longer⟩ := extended.nodes.list_back (names.inside name k found) here
  exact ⟨name, k, items₀, items', found, here₀, here', longer.length_le.trans_lt less⟩

section Lengthened
variable {registered : Registered} {lists : List String}

/-- `exp_list` with a name of a list as the first operand. -/
theorem expList_lengthened {s s₂ : State} {name : String} {k : Nat} {items : List Nat}
    (found : s.defs name = some k) (here : s.nodes[k]? = some (.list items))
    (grown : Grown s.nodes s₂.nodes) (exp : Nat) : Lengthened s (expList s₂ k exp).1 := by
  obtain ⟨items', here', longer⟩ := grown.list here
  refine ⟨name, k, items, items' ++ [exp], found, here, ?_, ?_⟩
  · simp only [expList, here']
    exact List.getElem?_set_self (List.getElem?_eq_some_iff.mp here').1
  · have le := longer.length_le
    rw [List.length_append, List.length_singleton]
    omega

theorem Parses.lengthened {s s' : State} {e : ParseTree} {n : Nat} (parses : Parses registered s e s' n) :
    Names lists s → e.appends lists = true → Lengthened s s' := by
  induction parses with
  | parentheses _ ih =>
      intro names appends
      exact (ih names appends).later (expCreate_grown _ _)
  | @comma s s₁ s₂ left right l r first second ihLeft ihRight =>
      intro names appends
      simp only [ParseTree.appends, Bool.or_eq_true] at appends
      rcases appends with (named | appends) | appends
      · cases left with
        | symbol name =>
            obtain ⟨k, found, items, here⟩ := names.list name (by simpa [ParseTree.namesList] using named)
            cases first with
            | defined found' =>
                cases found.symm.trans found'
                exact expList_lengthened found here second.extended.nodes r
            | symbol unknown =>
                rw [unknown] at found
                cases found
        | _ => cases named
      · exact (ihLeft names appends).later (second.extended.nodes.trans (expList_grown _ _ _))
      · exact ((ihRight (names.later first.extended) appends).later (expList_grown _ _ _)).earlier names
          first.extended
  | unary _ ih =>
      intro names appends
      exact (ih names appends).later (expCreate_grown _ _)
  | binary first second _ ihLeft ihRight =>
      intro names appends
      simp only [ParseTree.appends, Bool.or_eq_true] at appends
      rcases appends with appends | appends
      · exact (ihLeft names appends).later (second.extended.nodes.trans (expCreate_grown _ _))
      · exact ((ihRight (names.later first.extended) appends).later (expCreate_grown _ _)).earlier names
          first.extended
  | ternary first second third ihCondition ihYes ihNo =>
      intro names appends
      simp only [ParseTree.appends, Bool.or_eq_true] at appends
      rcases appends with (appends | appends) | appends
      · exact (ihCondition names appends).later
          (second.extended.nodes.trans (third.extended.nodes.trans (expCreate_grown _ _)))
      · exact ((ihYes (names.later first.extended) appends).later
          (third.extended.nodes.trans (expCreate_grown _ _))).earlier names first.extended
      · have both := first.extended.trans second.extended
        exact ((ihNo (names.later both) appends).later (expCreate_grown _ _)).earlier names both
  | function _ ih =>
      intro names appends
      exact (ih names appends).later (expCreate_grown _ _)
  | _ =>
      intro _ appends
      cases appends

theorem parseExps_extends (exps : List ParseTree) : ∀ {s s' : State} {roots : List Nat},
    parseExps registered s exps = some (s', roots) → Extends s s' := by
  induction exps with
  | nil =>
      intro s s' roots made
      cases made
      exact Extends.refl s
  | cons exp rest ih =>
      intro s s' roots made
      obtain ⟨⟨s₁, n⟩, first, made⟩ := Option.bind_eq_some_iff.mp made
      obtain ⟨⟨s₂, ns⟩, others, final⟩ := Option.bind_eq_some_iff.mp made
      cases final
      exact (parseExp_parses exp first).extended.trans (ih others)

theorem parseExps_lengthened (exps : List ParseTree) : ∀ {s s' : State} {roots : List Nat},
    Names lists s → exps.any (ParseTree.appends lists) = true →
    parseExps registered s exps = some (s', roots) → Lengthened s s' := by
  induction exps with
  | nil => intro s s' roots _ appends _; cases appends
  | cons exp rest ih =>
      intro s s' roots names appends made
      obtain ⟨⟨s₁, n⟩, first, made⟩ := Option.bind_eq_some_iff.mp made
      obtain ⟨⟨s₂, ns⟩, others, final⟩ := Option.bind_eq_some_iff.mp made
      cases final
      have parses := parseExp_parses exp first
      simp only [List.any_cons, Bool.or_eq_true] at appends
      rcases appends with appends | appends
      · exact (parses.lengthened names appends).later (parseExps_extends rest others).nodes
      · exact (ih (names.later parses.extended) appends others).earlier names parses.extended

theorem parseStatement_grown {s s' : State} {statement : Statement}
    (made : parseStatement registered s statement = some s') : Grown s.nodes s'.nodes := by
  cases statement with
  | rule exps =>
      obtain ⟨⟨s₁, roots⟩, first, final⟩ := Option.bind_eq_some_iff.mp made
      cases final
      exact (parseExps_extends exps first).nodes
  | define name exp =>
      obtain ⟨⟨s₁, n⟩, first, final⟩ := Option.bind_eq_some_iff.mp made
      obtain ⟨_, rfl⟩ := expDefine_eq final
      exact (parseExp_parses exp first).extended.nodes

theorem parseStatement_lengthened {s s' : State} {statement : Statement} (names : Names lists s)
    (appends : statement.appends lists = true)
    (made : parseStatement registered s statement = some s') : Lengthened s s' := by
  cases statement with
  | rule exps =>
      obtain ⟨⟨s₁, roots⟩, first, final⟩ := Option.bind_eq_some_iff.mp made
      cases final
      have lengthened : Lengthened s s₁ := parseExps_lengthened exps names appends first
      exact lengthened
  | define name exp =>
      obtain ⟨⟨s₁, n⟩, first, final⟩ := Option.bind_eq_some_iff.mp made
      obtain ⟨_, rfl⟩ := expDefine_eq final
      have lengthened : Lengthened s s₁ := (parseExp_parses exp first).lengthened names appends
      exact lengthened

theorem statements_grown (statements : List Statement) : ∀ {s s' : State},
    statements.foldlM (parseStatement registered) s = some s' → Grown s.nodes s'.nodes := by
  induction statements with
  | nil =>
      intro s s' made
      cases made
      exact Grown.refl _
  | cons statement rest ih =>
      intro s s' made
      rw [List.foldlM_cons] at made
      obtain ⟨s₁, first, others⟩ := Option.bind_eq_some_iff.mp made
      exact (parseStatement_grown first).trans (ih others)

/-- The first statement that appends to a definition comes after statements that do not. -/
theorem statements_lengthened (statements : List Statement) : ∀ {lists : List String} {s s' : State},
    Sound lists s → appendsToDefinition lists statements = true →
    statements.foldlM (parseStatement registered) s = some s' →
    ∃ front s₁, front <+: statements ∧ front.foldlM (parseStatement registered) s = some s₁ ∧
      Lengthened s₁ s' := by
  induction statements with
  | nil => intro lists s s' _ appends _; cases appends
  | cons statement rest ih =>
      intro lists s s' sound appends made
      rw [List.foldlM_cons] at made
      obtain ⟨s₁, first, others⟩ := Option.bind_eq_some_iff.mp made
      cases here : statement.appends lists with
      | true =>
          refine ⟨[], s, List.nil_prefix, rfl, ?_⟩
          exact (parseStatement_lengthened sound.names here first).later (statements_grown rest others)
      | false =>
          obtain ⟨sound₁, _⟩ := parseStatement_sound sound here first
          simp only [appendsToDefinition, here, Bool.false_or] at appends
          obtain ⟨front, s₂, inside, reached, lengthened⟩ := ih sound₁ appends others
          refine ⟨statement :: front, s₂, ?_, ?_, lengthened⟩
          · exact List.cons_prefix_cons.mpr ⟨rfl, inside⟩
          · rw [List.foldlM_cons]
            exact Option.bind_eq_some_iff.mpr ⟨s₁, first, reached⟩

end Lengthened

/-! ## The main result -/

/-- A list node stands for a list with as many items. -/
theorem hasTree_list {nodes : List Node} {k : Nat} {items : List Nat} {e : Exp}
    (here : nodes[k]? = some (.list items)) (tree : expNodes.HasTree nodes k e) :
    ∃ es, e = .list es ∧ es.length = items.length := by
  obtain ⟨fuel, found⟩ := tree
  cases fuel with
  | zero => cases found
  | succ fuel =>
      obtain ⟨node, here', built⟩ := Option.bind_eq_some_iff.mp found
      cases here.symm.trans here'
      obtain ⟨es, made, rfl⟩ := Option.map_eq_some_iff.mp built
      exact ⟨es, rfl, (mapM_strict items made).2⟩

/-- A name whose list has become longer does not stand for what it stood for. -/
theorem Lengthened.changed {s s' : State} (lengthened : Lengthened s s') :
    ∃ k, s.Root k ∧ ¬ ∃ e, expNodes.HasTree s.nodes k e ∧ expNodes.HasTree s'.nodes k e := by
  obtain ⟨name, k, items, items', found, here, here', less⟩ := lengthened
  refine ⟨k, .inl ⟨name, found⟩, ?_⟩
  rintro ⟨e, before, after⟩
  obtain ⟨es, same, length⟩ := hasTree_list here before
  obtain ⟨es', same', length'⟩ := hasTree_list here' after
  rw [same] at same'
  cases same'
  omega

theorem sound_start : Sound [] ⟨[], fun _ => none, []⟩ where
  whole n inside := by cases inside
  defined _ _ found := by cases found
  known _ member := by cases member
  ruled _ member := by cases member

theorem appendsToDefinition_append (front back : List Statement) : ∀ lists : List String,
    appendsToDefinition lists (front ++ back) = false → appendsToDefinition lists front = false ∧
      appendsToDefinition (front.foldl Statement.lists lists) back = false := by
  induction front with
  | nil => intro lists harmless; exact ⟨rfl, harmless⟩
  | cons statement rest ih =>
      intro lists harmless
      simp only [List.cons_append, appendsToDefinition, Bool.or_eq_false_iff] at harmless ⊢
      obtain ⟨first, second⟩ := ih _ harmless.2
      exact ⟨⟨harmless.1, first⟩, second⟩

theorem Sound.root {lists : List String} {s : State} (sound : Sound lists s) {n : Nat} (root : s.Root n) :
    n < s.nodes.length := by
  rcases root with ⟨name, found⟩ | ⟨rule, member, here⟩
  · exact (sound.defined name n found).1
  · exact sound.ruled rule member n here

/-- The statements that a file has define names that stay what they are, and nodes without
a cycle, exactly when no name that was defined as a list is followed by a comma. -/
theorem definitions_immutable_iff (registered : Registered) (statements : List Statement) {s : State}
    (accepted : parse registered statements = some s) :
    Immutable registered statements ↔ appendsToDefinition [] statements = false := by
  constructor
  · intro immutable
    by_contra appends
    obtain ⟨front, s₁, inside, reached, lengthened⟩ :=
      statements_lengthened statements sound_start (by simpa using appends) accepted
    obtain ⟨k, root, changed⟩ := lengthened.changed
    exact changed (immutable.kept front s₁ s inside reached accepted k root)
  · intro harmless
    constructor
    · intro front s₁ s' inside reached accepted' n root
      obtain ⟨back, rfl⟩ := inside
      obtain ⟨first, second⟩ := appendsToDefinition_append front back [] harmless
      obtain ⟨sound, _⟩ := statements_sound front sound_start first reached
      have rest : back.foldlM (parseStatement registered) s₁ = some s' := by
        rw [parse, List.foldlM_append] at accepted'
        obtain ⟨s₂, reached', others⟩ := Option.bind_eq_some_iff.mp accepted'
        cases reached.symm.trans reached'
        exact others
      obtain ⟨_, kept⟩ := statements_sound back sound second rest
      obtain ⟨e, tree⟩ := sound.whole n (sound.root root)
      exact ⟨e, tree, tree.longer kept.longer⟩
    · intro s' accepted'
      obtain ⟨sound, _⟩ := statements_sound statements sound_start harmless accepted'
      exact sound.whole.wellFounded

/-- No symbols and no functions. -/
def nothingRegistered : Registered := ⟨fun _ => false, fun _ => none⟩

/-- `define l (1, 2)` and a rule with `l, 3`: the parentheses make the difference. -/
theorem parenthesised_list_is_immutable :
    Immutable nothingRegistered
      [.define "l" (.parentheses (.comma (.constant (.int 1)) (.constant (.int 2)))),
        .rule [.comma (.symbol "l") (.constant (.int 3))]] :=
  (definitions_immutable_iff nothingRegistered _ rfl).mpr rfl

/-- `define l 1, 2`: a rule with `(l, 3)` changes what `l` stands for, and a rule with
`(l, l)` makes the list contain itself. -/
theorem list_is_appended_to :
    let define : Statement := .define "l" (.comma (.constant (.int 1)) (.constant (.int 2)))
    let appending : List Statement :=
      [define, .rule [.parentheses (.comma (.symbol "l") (.constant (.int 3)))]]
    let looping : List Statement := [define, .rule [.parentheses (.comma (.symbol "l") (.symbol "l"))]]
    (∃ s s' n, parse nothingRegistered [define] = some s ∧ parse nothingRegistered appending = some s' ∧
      s.defs "l" = some n ∧ s'.defs "l" = some n ∧
      expNodes.HasTree s.nodes n (.list [.constant 0, .constant 1]) ∧
      expNodes.HasTree s'.nodes n (.list [.constant 0, .constant 1, .constant 3])) ∧
    (∃ s n, parse nothingRegistered looping = some s ∧ s.defs "l" = some n ∧ expNodes.Child s.nodes n n) ∧
    ¬ Immutable nothingRegistered appending ∧ ¬ Immutable nothingRegistered looping := by
  intro define appending looping
  have changed : ∃ s s' n, parse nothingRegistered [define] = some s ∧
      parse nothingRegistered appending = some s' ∧ s.defs "l" = some n ∧ s'.defs "l" = some n ∧
      expNodes.HasTree s.nodes n (.list [.constant 0, .constant 1]) ∧
      expNodes.HasTree s'.nodes n (.list [.constant 0, .constant 1, .constant 3]) :=
    ⟨_, _, 2, rfl, rfl, rfl, rfl, ⟨2, rfl⟩, ⟨2, rfl⟩⟩
  have loops : ∃ s n, parse nothingRegistered looping = some s ∧ s.defs "l" = some n ∧
      expNodes.Child s.nodes n n :=
    ⟨_, 2, rfl, rfl, .list [0, 1, 2], rfl, by simp [expNodes, Node.children]⟩
  refine ⟨changed, loops, ?_, ?_⟩
  · intro immutable
    obtain ⟨s, s', n, front, whole, found, _, before, after⟩ := changed
    obtain ⟨e, tree, tree'⟩ := immutable.kept [define] s s' ⟨_, rfl⟩ front whole n (.inl ⟨"l", found⟩)
    have same := (before.unique tree).trans (tree'.unique after)
    cases same
  · intro immutable
    obtain ⟨s, n, whole, _, child⟩ := loops
    exact (immutable.acyclic s whole).asymmetric n n child child

end Mopher.Parser
