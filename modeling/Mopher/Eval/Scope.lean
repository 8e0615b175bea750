import Mopher.Eval.Exp

/-!
# What an evaluation may do

A run of `expEval` assigns a variable, asks whether a symbol is set, or calls a
function only where the expression does.
-/

set_option autoImplicit false

namespace Mopher

/-! ## Commands that an expression can issue -/

mutual

/-- Every subexpression satisfies `p`. -/
def Exp.all (p : Exp → Bool) (e : Exp) : Bool :=
  p e &&
    match e with
    | .parentheses inner => inner.all p
    | .constant _ => true
    | .list items => Exp.allItems p items
    | .symbol _ => true
    | .function _ none => true
    | .function _ (some args) => args.all p
    | .assign _ value => value.all p
    | .isSet operand => operand.all p
    | .not operand => operand.all p
    | .isNull operand => operand.all p
    | .connective _ left right => left.all p && right.all p
    | .operation _ left right => left.all p && right.all p
    | .var _ => true
    | .macroRef _ => true
    | .ternary condition yes no => condition.all p && yes.all p && no.all p

def Exp.allItems (p : Exp → Bool) : List Exp → Bool
  | [] => true
  | item :: rest => item.all p && Exp.allItems p rest

end

def Exp.notAssign : Exp → Bool
  | .assign _ _ => false
  | _ => true

/-- `isset` tells which symbols were computed yet, and `random` is drawn anew. -/
def Exp.repeatable : Exp → Bool
  | .isSet _ => false
  | .function .random _ => false
  | _ => true

/-- A command that some subexpression with `p` issues. -/
def Allowed (p : Exp → Bool) : Command → Prop
  | .assign name _ => ∃ value, p (.assign name value) = true
  | .isSet name => p (.isSet (.symbol name)) = true
  | .function f _ => ∃ args, p (.function f args) = true
  | _ => True

theorem not_allowed_assign (name : String) (o : Obj) : ¬ Allowed Exp.notAssign (.assign name o) := by
  rintro ⟨value, impossible⟩
  cases impossible

section Issues
variable {p : Exp → Bool}

open Prog in
theorem allowed_truth (o : Obj) : Issues (Allowed p) (truth o) := issues_issue trivial

open Prog in
theorem allowed_bool (op : Connective) {left right : EvalM (Option Obj)}
    (first : Issues (Allowed p) left) (second : Issues (Allowed p) right) :
    Issues (Allowed p) (expBool op left right) := by
  refine issues_bind first fun l => ?_
  cases l with
  | none => exact issues_pure _ _
  | some l =>
      refine issues_bind (allowed_truth l) fun status => ?_
      split
      · exact issues_pure _ _
      · split
        · exact issues_pure _ _
        · refine issues_bind second fun r => ?_
          cases r with
          | none => exact issues_pure _ _
          | some r =>
              refine issues_bind (allowed_truth r) fun other => ?_
              split
              · exact issues_pure _ _
              · exact issues_pure _ _

open Prog in
theorem allowed_not (operand : Option Obj) : Issues (Allowed p) (expNot operand) := by
  cases operand with
  | none => exact issues_pure _ _
  | some o =>
      refine issues_bind (allowed_truth o) fun status => ?_
      cases status with
      | none => exact issues_pure _ _
      | some b => exact issues_pure _ _

open Prog in
theorem allowed_isNull (operand : Option Obj) : Issues (Allowed p) (expIsNull operand) := by
  cases operand with
  | none => exact issues_pure _ _
  | some o => exact issues_bind (allowed_truth o) fun status => issues_pure _ _

open Prog in
theorem allowed_macro (name : String) : Issues (Allowed p) (expEvalMacro name) := by
  refine issues_bind (issues_issue trivial) fun stage => ?_
  cases stage with
  | none => exact issues_pure _ _
  | some _ =>
      refine issues_bind (issues_issue trivial) fun ctx => ?_
      refine issues_bind (issues_issue trivial) fun stagename => ?_
      split
      · exact issues_pure _ _
      · exact issues_bind (issues_issue trivial) fun value => issues_pure _ _

open Prog in
theorem allowed_ternary {condition yes no : EvalM (Option Obj)}
    (first : Issues (Allowed p) condition) (second : Issues (Allowed p) yes)
    (third : Issues (Allowed p) no) : Issues (Allowed p) (expEvalTernary condition yes no) := by
  refine issues_bind first fun o => ?_
  cases o with
  | none => exact issues_pure _ _
  | some o =>
      refine issues_bind (allowed_truth o) fun status => ?_
      split
      · exact second
      · exact third

mutual

/-- An expression issues only what its subexpressions ask for. -/
theorem expEval_issues : ∀ (e : Exp), e.all p = true → Prog.Issues (Allowed p) (expEval e) := by
  intro e all
  unfold expEval
  refine Prog.issues_bind (Prog.issues_issue trivial) fun _ => ?_
  cases e with
  | parentheses inner =>
      simp only [Exp.all, Bool.and_eq_true] at all
      exact expEval_issues inner all.2
  | constant id => exact Prog.issues_pure _ _
  | list items =>
      simp only [Exp.all, Bool.and_eq_true] at all
      exact Prog.issues_bind (expEvalList_issues items all.2) fun _ => Prog.issues_pure _ _
  | symbol name => exact Prog.issues_issue trivial
  | function f args =>
      cases args with
      | none =>
          simp only [Exp.all, Bool.and_eq_true] at all
          exact Prog.issues_issue ⟨none, all.1⟩
      | some args =>
          simp only [Exp.all, Bool.and_eq_true] at all
          refine Prog.issues_bind (expEval_issues args all.2) fun o => ?_
          cases o with
          | none => exact Prog.issues_pure _ _
          | some o => exact Prog.issues_issue ⟨some args, all.1⟩
  | assign name value =>
      simp only [Exp.all, Bool.and_eq_true] at all
      refine Prog.issues_bind (expEval_issues value all.2) fun o => ?_
      cases o with
      | none => exact Prog.issues_pure _ _
      | some o =>
          exact Prog.issues_bind (Prog.issues_issue ⟨value, all.1⟩) fun _ => Prog.issues_pure _ _
  | isSet operand =>
      simp only [Exp.all, Bool.and_eq_true] at all
      cases operand with
      | symbol name => exact Prog.issues_bind (Prog.issues_issue all.1) fun _ => Prog.issues_pure _ _
      | _ => exact Prog.issues_pure _ _
  | not operand =>
      simp only [Exp.all, Bool.and_eq_true] at all
      exact Prog.issues_bind (expEval_issues operand all.2) fun o => allowed_not o
  | isNull operand =>
      simp only [Exp.all, Bool.and_eq_true] at all
      exact Prog.issues_bind (expEval_issues operand all.2) fun o => allowed_isNull o
  | connective op left right =>
      simp only [Exp.all, Bool.and_eq_true] at all
      exact allowed_bool op (expEval_issues left all.2.1) (expEval_issues right all.2.2)
  | operation op left right =>
      simp only [Exp.all, Bool.and_eq_true] at all
      exact Prog.issues_bind (expEval_issues left all.2.1) fun l =>
        Prog.issues_bind (expEval_issues right all.2.2) fun r => Prog.issues_issue trivial
  | var name => exact Prog.issues_bind (Prog.issues_issue trivial) fun _ => Prog.issues_pure _ _
  | macroRef name => exact allowed_macro name
  | ternary condition yes no =>
      simp only [Exp.all, Bool.and_eq_true] at all
      exact allowed_ternary (expEval_issues condition all.2.1.1) (expEval_issues yes all.2.1.2)
        (expEval_issues no all.2.2)

theorem expEvalList_issues : ∀ (items : List Exp), Exp.allItems p items = true →
    Prog.Issues (Allowed p) (expEvalList items) := by
  intro items all
  cases items with
  | nil => exact Prog.issues_pure _ _
  | cons item rest =>
      simp only [Exp.allItems, Bool.and_eq_true] at all
      refine Prog.issues_bind (expEval_issues item all.1) fun o => ?_
      exact Prog.issues_bind (expEvalList_issues rest all.2) fun os => Prog.issues_pure _ _

end

end Issues

end Mopher
