import Mopher.Eval.Exp

/-!
# Three-valued logic

The manual says that `!`, `&&` and `||` follow Kleene's logic, with null as the
third truth value.  `valuation` is that reading of an expression: it is computed
from the tables of the manual, down to comparisons and other operands, which are
evaluated.  `exp_eval` agrees with it at every subexpression that it reaches
exactly when it reaches no `||` whose left operand is null and whose right
operand is false: that one cell of the table is wrong.
-/

set_option autoImplicit false

namespace Mopher

/-- `none` is null. -/
abbrev Truth := Option Bool

def kleeneNot : Truth → Truth
  | none => none
  | some b => some (!b)

def kleene : Connective → Truth → Truth → Truth
  | .and, some false, _ => some false
  | .and, _, some false => some false
  | .and, some true, some true => some true
  | .and, _, _ => none
  | .or, some true, _ => some true
  | .or, _, some true => some true
  | .or, some false, some false => some false
  | .or, _, _ => none

/-- The left operand alone gives the result. -/
def decides (op : Connective) (left : Truth) : Bool :=
  match op with
  | .and => left == some false
  | .or => left == some true

section Evaluation
variable (env : Env)

/-- `exp_eval` returned an object: its truth status, and the world after. -/
def evalStatus (e : Exp) (w : World) : Option (Truth × World) :=
  match ((expEval e).run (step env) w).result with
  | .ok (some o, w') => some (truthStatus env.libc (o.value w'), w')
  | _ => none

/-- A comparison is null if an operand is, else it is what the comparison of the
operands gives. -/
def compareTruth (op : CompareOp) (left right : Value) : Option Truth :=
  if left.isNull || right.isNull then some none
  else
    match varCompare env.libc left right with
    | .ok (some cmp) =>
        if cmp = -1 ∨ cmp = 0 ∨ cmp = 1 then some (some (compareHolds op cmp)) else none
    | _ => none

/-- The value of an operand of a comparison, and the world after. -/
def operand (e : Exp) (w : World) : Option (Obj × World) :=
  match ((expEval e).run (step env) w).result with
  | .ok (some o, w') => some (o, w')
  | _ => none

/-- The valuation that the manual describes; `none` if an operand fails. -/
def valuation : Exp → World → Option (Truth × World)
  | .parentheses inner, w => valuation inner w
  | .not inner, w => do
      let (a, w) ← valuation inner w
      return (kleeneNot a, w)
  | .connective op left right, w => do
      let (a, w) ← valuation left w
      if decides op a then return (a, w)
      else
        let (b, w) ← valuation right w
        return (kleene op a b, w)
  | .operation (.compare op) left right, w => do
      let (l, w) ← operand env left w
      let (r, w) ← operand env right w
      let a ← compareTruth env op (l.value w) (r.value w)
      return (a, w)
  | e, w => evalStatus env e w

def Logical : Exp → Prop
  | .parentheses _ => True
  | .not _ => True
  | .connective _ _ _ => True
  | _ => False

/-- In the evaluation of the first expression in the first world, `exp_eval` is
called for the second one in the second world, at a place that only `!`, `&&`,
`||`, parentheses and comparisons stand above. -/
inductive Reached : Exp → World → Exp → World → Prop where
  | here (e : Exp) (w : World) : Reached e w e w
  | parentheses {inner e : Exp} {w v : World} (below : Reached inner w e v) :
      Reached (.parentheses inner) w e v
  | not {inner e : Exp} {w v : World} (below : Reached inner w e v) : Reached (.not inner) w e v
  | left {op : Connective} {l e : Exp} (r : Exp) {w v : World} (below : Reached l w e v) :
      Reached (.connective op l r) w e v
  | right {op : Connective} {l r e : Exp} {w w' v : World} {a : Truth}
      (status : evalStatus env l w = some (a, w')) (undecided : decides op a = false)
      (below : Reached r w' e v) : Reached (.connective op l r) w e v
  | compareLeft {op : CompareOp} {l e : Exp} (r : Exp) {w v : World} (below : Reached l w e v) :
      Reached (.operation (.compare op) l r) w e v
  | compareRight {op : CompareOp} {l r e : Exp} {w w' v : World} {o : Obj}
      (first : operand env l w = some (o, w')) (below : Reached r w' e v) :
      Reached (.operation (.compare op) l r) w e v

/-- No operand and no comparison that is reached fails. -/
def OperandsSucceed (e : Exp) (w : World) : Prop :=
  ∀ e' w', Reached env e w e' w' → ¬ Logical e' → (evalStatus env e' w').isSome

/-- What is done after the left operand was evaluated and looked at. -/
def afterLeft (op : Connective) (l r : Exp) (w : World) : List (Command × World) :=
  ((expEval (.connective op l r)).run (step env) w).trace.drop
    (((expEval l).run (step env) w).trace.length + 2)

/-- The right operand is evaluated exactly when the left one leaves it open. -/
def ShortCircuits (op : Connective) (l r : Exp) (w : World) : Prop :=
  ∀ a w', evalStatus env l w = some (a, w') →
    (decides op a = true → afterLeft env op l r w = []) ∧
      (decides op a = false → ((expEval r).run (step env) w').trace <+: afterLeft env op l r w)

/-- At every subexpression that is reached, the result has the truth status of
the valuation, and the right operands that are needed are evaluated, no others. -/
def ThreeValued (e : Exp) (w : World) : Prop :=
  ∀ e' w', Reached env e w e' w' →
    evalStatus env e' w' = valuation env e' w' ∧
      ∀ op l r, e' = .connective op l r → ShortCircuits env op l r w'

/-- No `||` that is reached has null on its left and false on its right. -/
def NoNullOrFalse (e : Exp) (w : World) : Prop :=
  ∀ l r w' w₁ w₂, Reached env e w (.connective .or l r) w' →
    evalStatus env l w' = some (none, w₁) → evalStatus env r w₁ ≠ some (some false, w₂)

end Evaluation

/-! ## What a node does -/

section Nodes
variable {env : Env}

theorem run_entered (e : Exp) (body : EvalM (Option Obj)) (w : World) :
    (entered e body).run (step env) w =
      ⟨(.visit e, w) :: (body.run (step env) w).trace, (body.run (step env) w).result⟩ := rfl

theorem run_truth {β : Type} (o : Obj) (f : Option Bool → EvalM β) (w : World) :
    (truth o >>= f).run (step env) w =
      ⟨(.truth o, w) :: ((f (truthStatus env.libc (o.value w))).run (step env) w).trace,
        ((f (truthStatus env.libc (o.value w))).run (step env) w).result⟩ := rfl

theorem evalStatus_some {e : Exp} {w w' : World} {a : Truth}
    (status : evalStatus env e w = some (a, w')) :
    ∃ o, ((expEval e).run (step env) w).result = .ok (some o, w') ∧
      truthStatus env.libc (o.value w') = a := by
  unfold evalStatus at status
  split at status
  · rename_i o v returned
    cases status
    exact ⟨o, returned, rfl⟩
  · cases status

theorem evalStatus_of_result {e : Exp} {w w' : World} {o : Obj}
    (returned : ((expEval e).run (step env) w).result = .ok (some o, w')) :
    evalStatus env e w = some (truthStatus env.libc (o.value w'), w') := by
  unfold evalStatus
  rw [returned]

theorem evalStatus_parentheses (inner : Exp) (w : World) :
    evalStatus env (.parentheses inner) w = evalStatus env inner w := by
  unfold evalStatus
  rw [expEval, run_entered]

theorem truthStatus_boolean (b : Bool) : truthStatus env.libc (expBoolean b) = some b := by
  cases b <;> rfl

theorem evalStatus_not {inner : Exp} {w w' : World} {a : Truth}
    (status : evalStatus env inner w = some (a, w')) :
    evalStatus env (.not inner) w = some (kleeneNot a, w') := by
  obtain ⟨o, returned, rfl⟩ := evalStatus_some status
  have result : ((expEval (.not inner)).run (step env) w).result =
      .ok (some (.temp ((truthStatus env.libc (o.value w')).elim expEmpty fun b => expBoolean (!b))),
        w') := by
    rw [expEval, run_entered, Prog.run_bind_ok _ returned]
    simp only [expNot]
    rw [run_truth]
    cases truthStatus env.libc (o.value w') <;> rfl
  rw [evalStatus_of_result result]
  cases truthStatus env.libc (o.value w') with
  | none => rfl
  | some b => simp only [Obj.value, Option.elim_some, truthStatus_boolean, kleeneNot]

/-- What `exp_bool` makes of two operands that it evaluates: the table, but for
`||`, which hands its right operand through. -/
def boolStatus : Connective → Truth → Truth → Truth
  | .and, a, b => kleene .and a b
  | .or, _, b => b

theorem boolStatus_eq_kleene_iff {op : Connective} {a : Truth} (undecided : decides op a = false)
    (b : Truth) : boolStatus op a b = kleene op a b ↔ ¬ (op = .or ∧ a = none ∧ b = some false) := by
  cases op with
  | and => simp [boolStatus]
  | or =>
      rcases a with _ | _ | _ <;> rcases b with _ | _ | _ <;>
        simp_all [boolStatus, kleene, decides]

/-- The run of a connective whose left operand returned an object. -/
theorem run_connective {op : Connective} {l : Exp} (r : Exp) {w w' : World} {o : Obj}
    (returned : ((expEval l).run (step env) w).result = .ok (some o, w')) :
    (expEval (.connective op l r)).run (step env) w =
      let rest := ((if decides op (truthStatus env.libc (o.value w')) then
          (pure (some (if op = .or then o else .temp expFalse)) : EvalM (Option Obj))
        else expBoolRight op (truthStatus env.libc (o.value w')) (expEval r)).run (step env) w')
      ⟨(.visit (.connective op l r), w) :: (((expEval l).run (step env) w).trace ++
        (.truth o, w') :: rest.trace), rest.result⟩ := by
  rw [expEval, run_entered, expBool, Prog.run_bind_ok _ returned]
  simp only []
  rw [run_truth]
  cases op with
  | and =>
      by_cases decided : truthStatus env.libc (o.value w') = some false
      · simp [decides, decided]
      · simp [decides, decided]
  | or =>
      by_cases decided : truthStatus env.libc (o.value w') = some true
      · simp [decides, decided]
      · simp [decides, decided]

theorem run_expBoolRight {op : Connective} {a : Truth} {r : Exp} {w w' : World} {o : Obj}
    (returned : ((expEval r).run (step env) w).result = .ok (some o, w')) :
    (expBoolRight op a (expEval r)).run (step env) w =
      ⟨((expEval r).run (step env) w).trace ++ [(.truth o, w')],
        .ok (if op = .or ∧ a ≠ some true then some o
          else (boolResult op a (truthStatus env.libc (o.value w'))).map .temp, w')⟩ := by
  rw [expBoolRight, Prog.run_bind_ok _ returned]
  simp only []
  rw [run_truth]
  split <;> rfl

theorem evalStatus_decided {op : Connective} {l : Exp} (r : Exp) {w w' : World} {a : Truth}
    (status : evalStatus env l w = some (a, w')) (decided : decides op a = true) :
    evalStatus env (.connective op l r) w = some (a, w') := by
  obtain ⟨o, returned, rfl⟩ := evalStatus_some status
  have result : ((expEval (.connective op l r)).run (step env) w).result =
      .ok (some (if op = .or then o else .temp expFalse), w') := by
    rw [run_connective r returned]
    simp [decided]
  rw [evalStatus_of_result result]
  cases op with
  | and => rw [eq_of_beq decided]; rfl
  | or => rfl

theorem evalStatus_undecided {op : Connective} {l r : Exp} {w w₁ w₂ : World} {a b : Truth}
    (left : evalStatus env l w = some (a, w₁)) (undecided : decides op a = false)
    (right : evalStatus env r w₁ = some (b, w₂)) :
    evalStatus env (.connective op l r) w = some (boolStatus op a b, w₂) := by
  obtain ⟨o, leftReturned, rfl⟩ := evalStatus_some left
  obtain ⟨p, rightReturned, rfl⟩ := evalStatus_some right
  have result : ((expEval (.connective op l r)).run (step env) w).result =
      .ok (if op = .or ∧ truthStatus env.libc (o.value w₁) ≠ some true then some p
        else (boolResult op (truthStatus env.libc (o.value w₁))
          (truthStatus env.libc (p.value w₂))).map .temp, w₂) := by
    rw [run_connective r leftReturned]
    simp only [undecided, Bool.false_eq_true, if_false]
    rw [run_expBoolRight rightReturned]
  cases op with
  | and =>
      have known : boolResult .and (truthStatus env.libc (o.value w₁))
          (truthStatus env.libc (p.value w₂)) =
          some (match kleene .and (truthStatus env.libc (o.value w₁))
            (truthStatus env.libc (p.value w₂)) with
            | none => expEmpty
            | some c => expBoolean c) := by
        rcases truthStatus env.libc (o.value w₁) with _ | _ | _ <;>
          rcases truthStatus env.libc (p.value w₂) with _ | _ | _ <;> rfl
      simp only [known, reduceCtorEq, false_and, if_false, Option.map_some] at result
      rw [evalStatus_of_result result, boolStatus]
      cases kleene .and (truthStatus env.libc (o.value w₁)) (truthStatus env.libc (p.value w₂)) with
      | none => rfl
      | some c => simp only [Obj.value, truthStatus_boolean]
  | or =>
      have open' : truthStatus env.libc (o.value w₁) ≠ some true := by
        simpa [decides] using undecided
      simp only [open', ne_eq, not_false_eq_true, and_self, if_true] at result
      rw [evalStatus_of_result result, boolStatus]

theorem operand_eq (e : Exp) (w : World) :
    (operand env e w).map (fun (o, w') => (truthStatus env.libc (o.value w'), w')) =
      evalStatus env e w := by
  unfold operand evalStatus
  split <;> rfl

theorem operand_some {e : Exp} {w w' : World} {o : Obj} (found : operand env e w = some (o, w')) :
    ((expEval e).run (step env) w).result = .ok (some o, w') := by
  unfold operand at found
  split at found
  · rename_i p v returned
    cases found
    exact returned
  · cases found

/-- `exp_compare` has the truth status that a comparison should have. -/
theorem compareTruth_eq (op : CompareOp) (l r : Value) :
    compareTruth env op l r =
      match expCompare env.libc op (some l) (some r) with
      | .ok (some v) => some (truthStatus env.libc v)
      | _ => none := by
  unfold compareTruth expCompare
  by_cases null : (l.isNull || r.isNull) = true
  · simp only [null, if_true]
    rfl
  · simp only [null, Bool.false_eq_true, if_false]
    cases varCompare env.libc l r with
    | error f => rfl
    | ok result =>
        cases result with
        | none => rfl
        | some cmp =>
            by_cases known : cmp = -1 ∨ cmp = 0 ∨ cmp = 1
            · simp only [known, if_true, truthStatus_boolean]
            · simp only [known, if_false]

theorem evalStatus_compare {op : CompareOp} {l r : Exp} {w w₁ w₂ : World} {o p : Obj}
    (left : operand env l w = some (o, w₁)) (right : operand env r w₁ = some (p, w₂)) :
    evalStatus env (.operation (.compare op) l r) w =
      (compareTruth env op (o.value w₂) (p.value w₂)).map fun a => (a, w₂) := by
  have result : ((expEval (.operation (.compare op) l r)).run (step env) w).result =
      (expCompare env.libc op (some (o.value w₂)) (some (p.value w₂))).map
        fun v => (v.map .temp, w₂) := by
    rw [expEval, run_entered, expApply, Prog.run_bind_ok _ (operand_some left),
      Prog.run_bind_ok _ (operand_some right), command, Prog.run_issue]
    rfl
  rw [compareTruth_eq]
  unfold evalStatus
  rw [result]
  cases expCompare env.libc op (some (o.value w₂)) (some (p.value w₂)) with
  | error f => rfl
  | ok v => cases v <;> rfl

theorem shortCircuits (op : Connective) (l r : Exp) (w : World) : ShortCircuits env op l r w := by
  intro a w' status
  obtain ⟨o, returned, rfl⟩ := evalStatus_some status
  unfold afterLeft
  rw [run_connective r returned]
  have dropped (tail : List (Command × World)) :
      ((Command.visit (.connective op l r), w) :: (((expEval l).run (step env) w).trace ++
        (Command.truth o, w') :: tail)).drop (((expEval l).run (step env) w).trace.length + 2) =
      tail := by
    rw [List.drop_succ_cons, List.drop_append]
    simp
  simp only [dropped]
  constructor
  · intro decided
    simp [decided]
  · intro undecided
    simp only [undecided, Bool.false_eq_true, if_false, expBoolRight]
    exact Prog.trace_bind _ _ _ _

end Nodes

/-! ## Every subexpression that is reached -/

section Trees
variable {env : Env}

theorem Reached.trans {e₁ e₂ e₃ : Exp} {w₁ w₂ w₃ : World} (first : Reached env e₁ w₁ e₂ w₂)
    (second : Reached env e₂ w₂ e₃ w₃) : Reached env e₁ w₁ e₃ w₃ := by
  induction first with
  | here e w => exact second
  | parentheses _ ih => exact .parentheses (ih second)
  | not _ ih => exact .not (ih second)
  | left r _ ih => exact .left r (ih second)
  | right status undecided _ ih => exact .right status undecided (ih second)
  | compareLeft r _ ih => exact .compareLeft r (ih second)
  | compareRight found _ ih => exact .compareRight found (ih second)

theorem OperandsSucceed.reached {e e' : Exp} {w w' : World} (succeed : OperandsSucceed env e w)
    (reached : Reached env e w e' w') : OperandsSucceed env e' w' :=
  fun _ _ below => succeed _ _ (reached.trans below)

theorem NoNullOrFalse.reached {e e' : Exp} {w w' : World} (none' : NoNullOrFalse env e w)
    (reached : Reached env e w e' w') : NoNullOrFalse env e' w' :=
  fun l r v w₁ w₂ below => none' l r v w₁ w₂ (reached.trans below)

/-- Induction over the connectives of an expression, down to its operands. -/
@[elab_as_elim]
theorem logicalInduction {P : Exp → Prop} (operand : ∀ e, ¬ Logical e → P e)
    (parentheses : ∀ inner, P inner → P (.parentheses inner)) (not : ∀ inner, P inner → P (.not inner))
    (connective : ∀ op l r, P l → P r → P (.connective op l r)) : ∀ e, P e
  | .parentheses inner =>
      parentheses inner (logicalInduction operand parentheses not connective inner)
  | .not inner => not inner (logicalInduction operand parentheses not connective inner)
  | .connective op l r =>
      connective op l r (logicalInduction operand parentheses not connective l)
        (logicalInduction operand parentheses not connective r)
  | .constant _ => operand _ id
  | .list _ => operand _ id
  | .symbol _ => operand _ id
  | .function _ _ => operand _ id
  | .assign _ _ => operand _ id
  | .isSet _ => operand _ id
  | .isNull _ => operand _ id
  | .operation _ _ _ => operand _ id
  | .var _ => operand _ id
  | .macroRef _ => operand _ id
  | .ternary _ _ _ => operand _ id

/-- Connectives of operands that do not fail do not fail. -/
theorem evalStatus_isSome (e : Exp) : ∀ w : World, OperandsSucceed env e w →
    ∃ a w', evalStatus env e w = some (a, w') := by
  induction e using logicalInduction with
  | operand e leaf =>
      intro w succeed
      obtain ⟨⟨a, w'⟩, status⟩ := Option.isSome_iff_exists.mp (succeed e w (.here e w) leaf)
      exact ⟨a, w', status⟩
  | parentheses inner ih =>
      intro w succeed
      rw [evalStatus_parentheses]
      exact ih w (succeed.reached (.parentheses (.here _ _)))
  | not inner ih =>
      intro w succeed
      obtain ⟨a, w', status⟩ := ih w (succeed.reached (.not (.here _ _)))
      exact ⟨_, w', evalStatus_not status⟩
  | connective op l r ihl ihr =>
      intro w succeed
      obtain ⟨a, w₁, left⟩ := ihl w (succeed.reached (.left r (.here _ _)))
      cases decided : decides op a with
      | true => exact ⟨a, w₁, evalStatus_decided r left decided⟩
      | false =>
          obtain ⟨b, w₂, right⟩ := ihr w₁ (succeed.reached (.right left decided (.here _ _)))
          exact ⟨_, w₂, evalStatus_undecided left decided right⟩

theorem operand_of_succeed {e : Exp} {w : World} (succeed : OperandsSucceed env e w) :
    ∃ o w', operand env e w = some (o, w') := by
  obtain ⟨a, w', status⟩ := evalStatus_isSome e w succeed
  rw [← operand_eq] at status
  obtain ⟨⟨o, v⟩, found, _⟩ := Option.map_eq_some_iff.mp status
  exact ⟨o, v, found⟩

/-- An operand has the truth status it evaluates to. -/
theorem valuation_leaf {e : Exp} (leaf : ¬ Logical e) (w : World) (succeed : OperandsSucceed env e w) :
    evalStatus env e w = valuation env e w := by
  cases e with
  | operation op l r =>
      cases op with
      | compare op =>
          obtain ⟨o, w₁, left⟩ := operand_of_succeed (succeed.reached (.compareLeft r (.here _ _)))
          obtain ⟨p, w₂, right⟩ :=
            operand_of_succeed (succeed.reached (.compareRight left (.here _ _)))
          rw [evalStatus_compare left right]
          simp only [valuation, left, right, Option.bind_eq_bind, Option.bind_some]
          cases compareTruth env op (o.value w₂) (p.value w₂) <;> rfl
      | regex negated => rfl
      | isIn => rfl
      | math op => rfl
  | parentheses inner => exact (leaf trivial).elim
  | not inner => exact (leaf trivial).elim
  | connective op l r => exact (leaf trivial).elim
  | constant id => rfl
  | list items => rfl
  | symbol name => rfl
  | function f args => rfl
  | assign name value => rfl
  | isSet inner => rfl
  | isNull inner => rfl
  | var name => rfl
  | macroRef name => rfl
  | ternary condition yes no => rfl

theorem evalStatus_eq_valuation (e : Exp) : ∀ w : World, OperandsSucceed env e w →
    NoNullOrFalse env e w → evalStatus env e w = valuation env e w := by
  induction e using logicalInduction with
  | operand e leaf =>
      intro w succeed _
      exact valuation_leaf leaf w succeed
  | parentheses inner ih =>
      intro w succeed right
      have below : Reached env (.parentheses inner) w inner w := .parentheses (.here _ _)
      rw [evalStatus_parentheses]
      exact ih w (succeed.reached below) (right.reached below)
  | not inner ih =>
      intro w succeed right
      have below : Reached env (.not inner) w inner w := .not (.here _ _)
      obtain ⟨a, w', status⟩ := evalStatus_isSome inner w (succeed.reached below)
      have same := ih w (succeed.reached below) (right.reached below)
      rw [evalStatus_not status, valuation, ← same, status]
      rfl
  | connective op l r ihl ihr =>
      intro w succeed right
      have atLeft : Reached env (.connective op l r) w l w := .left r (.here _ _)
      obtain ⟨a, w₁, left⟩ := evalStatus_isSome l w (succeed.reached atLeft)
      have sameLeft := ihl w (succeed.reached atLeft) (right.reached atLeft)
      rw [valuation, ← sameLeft, left]
      cases decided : decides op a with
      | true =>
          rw [evalStatus_decided r left decided]
          simp [decided]
      | false =>
          have atRight : Reached env (.connective op l r) w r w₁ := .right left decided (.here _ _)
          obtain ⟨b, w₂, status⟩ := evalStatus_isSome r w₁ (succeed.reached atRight)
          have sameRight := ihr w₁ (succeed.reached atRight) (right.reached atRight)
          have table : boolStatus op a b = kleene op a b := by
            rw [boolStatus_eq_kleene_iff decided]
            rintro ⟨rfl, rfl, rfl⟩
            exact right l r w w₁ w₂ (.here _ _) left status
          rw [evalStatus_undecided left decided status, table]
          simp [decided, ← sameRight, status]

/-- Evaluation follows the manual exactly when no `||` with null on its left and
false on its right is reached. -/
theorem three_valued_iff (env : Env) (e : Exp) (w : World) (succeed : OperandsSucceed env e w) :
    ThreeValued env e w ↔ NoNullOrFalse env e w := by
  constructor
  · intro follows l r w' w₁ w₂ reached left right
    have atLeft := (follows l w' (reached.trans (.left r (.here _ _)))).1
    have atRight := (follows r w₁ (reached.trans (.right left rfl (.here _ _)))).1
    have whole := (follows _ w' reached).1
    rw [evalStatus_undecided left rfl right, valuation, ← atLeft, left] at whole
    simp [decides, ← atRight, right, boolStatus, kleene] at whole
  · intro right e' w' reached
    refine ⟨evalStatus_eq_valuation e' w' (succeed.reached reached) (right.reached reached), ?_⟩
    intro op l r _
    exact shortCircuits op l r w'

/-- `null || false` is false, and so its negation is true. -/
theorem null_or_false_is_not_null :
    evalStatus plainEnv (.connective .or (.constant 0) (.constant 1)) (plainWorld [.nil .int, .int 0]) =
        some (some false, plainWorld [.nil .int, .int 0]) ∧
      valuation plainEnv (.connective .or (.constant 0) (.constant 1)) (plainWorld [.nil .int, .int 0]) =
        some (none, plainWorld [.nil .int, .int 0]) ∧
      evalStatus plainEnv (.not (.connective .or (.constant 0) (.constant 1))) (plainWorld [.nil .int, .int 0]) =
        some (some true, plainWorld [.nil .int, .int 0]) :=
  ⟨rfl, rfl, rfl⟩

theorem false_or_null_is_null :
    ThreeValued plainEnv (.connective .or (.constant 1) (.constant 0)) (plainWorld [.nil .int, .int 0]) := by
  apply (three_valued_iff plainEnv (.connective .or (.constant 1) (.constant 0))
    (plainWorld [.nil .int, .int 0]) ?_).mpr
  · intro l r w' w₁ w₂ reached left
    cases reached with
    | here =>
        have known : evalStatus plainEnv (.constant 1) (plainWorld [.nil .int, .int 0]) =
            some (some false, plainWorld [.nil .int, .int 0]) := rfl
        rw [known] at left
        cases left
    | left _ below => cases below
    | right _ _ below => cases below
  · intro e' w' reached leaf
    cases reached with
    | here => exact (leaf trivial).elim
    | left _ below => cases below; rfl
    | right _ _ below => cases below; rfl

end Trees

end Mopher
