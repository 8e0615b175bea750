import Mopher.Eval.Congruence
import Mopher.Eval.Scope
import Mopher.Eval.Match
import Mopher.Eval.AclTrace

/-!
# Rules that do not look at the match symbols

Two mailspecs that differ in the match symbols only are the same to a rule that reads
none of them, if callbacks and handlers do not read them either: its condition, its
action and its reply come to the same, and the mailspecs still differ in these symbols
only.  No pointer to such a symbol is ever handed out.
-/

set_option autoImplicit false

namespace Mopher

def NotMatch (name : String) : Prop := name ∉ aclMatchSymbols

/-- The mailspecs differ in the match symbols at most. -/
structure Alike (v w : World) : Prop where
  symbols : ∀ name, NotMatch name → v.symbols name = w.symbols name
  vars : v.vars = w.vars
  constants : v.constants = w.constants
  registered : v.registered = w.registered
  seed : v.seed = w.seed

theorem Alike.refl (w : World) : Alike w w := ⟨fun _ _ => rfl, rfl, rfl, rfl, rfl⟩

theorem Alike.symm {v w : World} (alike : Alike v w) : Alike w v :=
  ⟨fun name handed => (alike.symbols name handed).symm, alike.vars.symm, alike.constants.symm,
    alike.registered.symm, alike.seed.symm⟩

theorem Alike.trans {u v w : World} (first : Alike u v) (second : Alike v w) : Alike u w :=
  ⟨fun name handed => (first.symbols name handed).trans (second.symbols name handed),
    first.vars.trans second.vars, first.constants.trans second.constants,
    first.registered.trans second.registered, first.seed.trans second.seed⟩

/-- A record of a rule is no difference. -/
theorem aclMatch_alike (w : World) (stage : StageMask) (rule : Nat) (filename : Bytes) (line : Int)
    (response : AclActionType) : Alike (aclMatch w stage rule filename line response) w := by
  rw [aclMatch_eq]
  split
  · exact Alike.refl w
  · refine ⟨fun name handed => ?_, rfl, rfl, rfl, rfl⟩
    exact vtableSetv_other _ _ _ handed

/-- Callbacks and handlers do not look at the match symbols. -/
structure IgnoresMatch (env : AclEnv) : Prop where
  callback : ∀ {name stages run noCache}, env.registry name = some (.symbol stages (some run) noCache) →
    ∀ stage v w, Alike v w →
      Alike (run stage name v).1 (run stage name w).1 ∧ (run stage name v).2 = (run stage name w).2
  sleep : ∀ delay v w, Alike v w → env.sleep delay v = env.sleep delay w
  external : ∀ action stage v w, Alike v w →
    Alike (env.external action stage v).1 (env.external action stage w).1 ∧
      (env.external action stage v).2 = (env.external action stage w).2
  setReply : ∀ code xcode message v w, Alike v w →
    env.setReply v code xcode message = env.setReply w code xcode message

section Worlds
variable {v w : World} (alike : Alike v w)
include alike

theorem Alike.sameReads : SameReads NotMatch v w := by
  intro root handed
  cases root with
  | symbol name => simp only [World.read, alike.symbols name handed]
  | «variable» name => simp only [World.read, alike.vars]
  | constant id => simp only [World.read, alike.constants]
  | registered name => simp only [World.read, alike.registered]

theorem Alike.set (name : String) (value : Value) :
    Alike { v with symbols := vtableSet v.symbols name value }
      { w with symbols := vtableSet w.symbols name value } := by
  refine ⟨?_, alike.vars, alike.constants, alike.registered, alike.seed⟩
  intro other handed
  by_cases same : other = name
  · simp [same]
  · simp [same, alike.symbols other handed]

theorem Alike.write (root : Root) (value : Value) : Alike (v.write root value) (w.write root value) := by
  cases root with
  | symbol name => exact alike.set name value
  | «variable» name =>
      exact ⟨alike.symbols, by simp only [World.write, alike.vars], alike.constants, alike.registered,
        alike.seed⟩
  | constant id =>
      exact ⟨alike.symbols, alike.vars, by simp only [World.write, alike.constants], alike.registered,
        alike.seed⟩
  | registered name =>
      exact ⟨alike.symbols, alike.vars, alike.constants, by simp only [World.write, alike.registered],
        alike.seed⟩

theorem Alike.mailspecStage : mailspecStage v = mailspecStage w :=
  mailspecStage_congr (alike.symbols "stage" (by simp [NotMatch, aclMatchSymbols]))

/-! ## Commands -/

theorem symbolGet_alike {env : AclEnv} (ignores : IgnoresMatch env) {name : String}
    (handed : NotMatch name) :
    (aclSymbolGet worldOps env.registry v name).2 = (aclSymbolGet worldOps env.registry w name).2 ∧
      Alike (aclSymbolGet worldOps env.registry v name).1 (aclSymbolGet worldOps env.registry w name).1 := by
  have stages : worldOps.stage v = worldOps.stage w := alike.mailspecStage
  have lookup : worldOps.lookup v name = worldOps.lookup w name := by
    simp only [worldOps, alike.symbols name handed]
  unfold aclSymbolGet
  rw [stages]
  split
  · exact ⟨rfl, alike⟩
  · exact ⟨rfl, alike⟩
  · rename_i entry stage found here
    split
    · exact ⟨rfl, alike⟩
    · cases entry with
      | constant _ _ => exact ⟨rfl, alike⟩
      | other _ => exact ⟨rfl, alike⟩
      | symbol stages callback noCache =>
          simp only [lookup]
          split
          · exact ⟨rfl, alike⟩
          · cases callback with
            | none =>
                refine ⟨?_, alike.set name (.nil .int)⟩
                simp [symbolCompute, worldOps, vtableSetNull]
            | some run =>
                obtain ⟨after, answer⟩ := ignores.callback found stage v w alike
                refine ⟨?_, after⟩
                simp only [symbolCompute, answer, worldOps, after.symbols name handed]

theorem operation_alike (libc : Libc) (stack : Int) (op : Operation) {left right : Option Obj}
    (first : ScopedResult NotMatch left) (second : ScopedResult NotMatch right) :
    Prog.SameResult Alike (expOperation libc stack op left right v)
      (expOperation libc stack op left right w) :=
  operation_related alike.sameReads alike alike.write libc stack op first second

theorem Alike.draw (seed : Nat) : Alike { v with seed := seed } { w with seed := seed } :=
  ⟨alike.symbols, alike.vars, alike.constants, alike.registered, rfl⟩

theorem function_alike (libc : Libc) (f : Builtin) {args : Option Obj}
    (handed : ScopedResult NotMatch args) :
    Prog.SameResult Alike (expFunction libc f args v) (expFunction libc f args w) :=
  function_related alike.sameReads alike alike.write (fun _ => ⟨alike.seed, alike.draw⟩) libc handed

end Worlds

/-- The command does not look at the match symbols. -/
def Command.Ignores : Command → Prop
  | .symbol name => NotMatch name
  | .isSet name => NotMatch name
  | c => c.Scoped NotMatch

theorem step_alike {env : AclEnv} (ignores : IgnoresMatch env) {c : Command} (handed : c.Ignores)
    {v w : World} (alike : Alike v w) :
    Prog.SameResult Alike (step env.toEnv c v) (step env.toEnv c w) := by
  have same := alike.sameReads
  cases c with
  | symbol name => exact symbolGet_alike alike ignores handed
  | visit e => exact ⟨rfl, alike⟩
  | var name => exact ⟨by simp only [aclVariableGet, alike.vars], alike⟩
  | stage => exact ⟨alike.mailspecStage, alike⟩
  | getsymval name => exact ⟨rfl, alike⟩
  | isSet name => exact ⟨by simp only [alike.symbols name handed], alike⟩
  | assign name o =>
      have value := value_congr same o handed
      simp only [step, aclVariableAssign, value]
      split
      · exact ⟨rfl, alike⟩
      · exact ⟨rfl, alike.symbols, by simp only [alike.vars], alike.constants, alike.registered, alike.seed⟩
  | truth o => exact ⟨by simp only [value_congr same o handed], alike⟩
  | value o => exact ⟨value_congr same o handed, alike⟩
  | operation op left right => exact operation_alike alike _ _ op handed.1 handed.2
  | function f args => exact function_alike alike _ f handed

theorem symbolGet_notMatch (env : Env) (w : World) {name : String} (handed : NotMatch name) :
    ScopedResult NotMatch (aclSymbolGet worldOps env.registry w name).2 := by
  have how := symbolGet_result env w name
  generalize aclSymbolGet worldOps env.registry w name = result at how ⊢
  intro x same
  cases how with
  | unavailable _ _ => cases same
  | constant _ _ _ => cases same; exact trivial
  | cached _ _ => cases same; exact handed
  | unset _ _ _ => cases same; exact handed
  | computed _ _ =>
      simp only [] at same
      split at same
      · obtain ⟨_, _, rfl⟩ := Option.map_eq_some_iff.mp same
        exact handed
      · cases same

/-- No pointer to a match symbol is handed out. -/
theorem step_notMatch {env : Env} {c : Command} (handed : c.Ignores) {w w' : World} {r : c.Response}
    (returned : step env c w = .ok (r, w')) : AnswerScoped NotMatch c r := by
  cases c with
  | symbol name =>
      cases returned
      exact symbolGet_notMatch env w handed
  | var name =>
      cases returned
      intro x same
      obtain ⟨_, _, rfl⟩ := Option.map_eq_some_iff.mp same
      exact trivial
  | operation op left right => exact operation_scoped returned handed.1
  | function f args => exact function_scoped _ returned
  | visit e => exact trivial
  | stage => exact trivial
  | getsymval name => exact trivial
  | isSet name => exact trivial
  | assign name o => exact trivial
  | truth o => exact trivial
  | value o => exact trivial

/-! ## Expressions -/

/-- The expression itself is not a match symbol. -/
def Exp.notMatch : Exp → Bool
  | .symbol name => decide (name ∉ aclMatchSymbols)
  | _ => true

/-- No match symbol occurs in the expression. -/
def Exp.ignoresMatch (e : Exp) : Bool := e.all Exp.notMatch

/-- The program comes to the same end in mailspecs that are alike. -/
def Blind {α : Type} (env : AclEnv) (p : EvalM α) (Q : α → Prop) : Prop :=
  Prog.Respects (step env.toEnv) Alike p Q

/-- The program returns no pointer to a match symbol. -/
def BlindEval (env : AclEnv) (p : EvalM (Option Obj)) : Prop := Blind env p (ScopedResult NotMatch)

section Evaluator
variable {env : AclEnv} (ignores : IgnoresMatch env)
include ignores

theorem blind_command {c : Command} (handed : c.Ignores) :
    Blind env (command c) (AnswerScoped NotMatch c) :=
  Prog.respects_issue fun _ _ alike =>
    ⟨step_alike ignores handed alike, fun _ _ returned => step_notMatch handed returned⟩

theorem blind_truth {o : Obj} (handed : o.Scoped NotMatch) : Blind env (truth o) fun _ => True :=
  blind_command ignores (c := .truth o) handed

theorem blind_symbol {name : String} (handed : NotMatch name) : BlindEval env (symbolGet name) :=
  blind_command ignores (c := .symbol name) handed

theorem blind_bool (op : Connective) {left right : EvalM (Option Obj)} (first : BlindEval env left)
    (second : BlindEval env right) : BlindEval env (expBool op left right) := by
  refine Prog.respects_bind first fun l handed => ?_
  cases l with
  | none => exact Prog.respects_pure (none_scoped _)
  | some l =>
      refine Prog.respects_bind (blind_truth ignores (handed l rfl)) fun status _ => ?_
      split
      · exact Prog.respects_pure handed
      · split
        · exact Prog.respects_pure (temp_scoped _ _)
        · refine Prog.respects_bind second fun r handed' => ?_
          cases r with
          | none => exact Prog.respects_pure (none_scoped _)
          | some r =>
              refine Prog.respects_bind (blind_truth ignores (handed' r rfl)) fun other _ => ?_
              split
              · exact Prog.respects_pure handed'
              · exact Prog.respects_pure (map_temp_scoped _ _ id)

theorem blind_not {operand : EvalM (Option Obj)} (first : BlindEval env operand) :
    BlindEval env (operand >>= expNot) := by
  refine Prog.respects_bind first fun o handed => ?_
  cases o with
  | none => exact Prog.respects_pure (temp_scoped _ _)
  | some o =>
      refine Prog.respects_bind (blind_truth ignores (handed o rfl)) fun status _ => ?_
      cases status with
      | none => exact Prog.respects_pure (temp_scoped _ _)
      | some b => exact Prog.respects_pure (temp_scoped _ _)

theorem blind_isNull {operand : EvalM (Option Obj)} (first : BlindEval env operand) :
    BlindEval env (operand >>= expIsNull) := by
  refine Prog.respects_bind first fun o handed => ?_
  cases o with
  | none => exact Prog.respects_pure (temp_scoped _ _)
  | some o =>
      exact Prog.respects_bind (blind_truth ignores (handed o rfl)) fun _ _ =>
        Prog.respects_pure (temp_scoped _ _)

theorem blind_assign (name : String) {value : EvalM (Option Obj)} (first : BlindEval env value) :
    BlindEval env (value >>= expAssign name) := by
  refine Prog.respects_bind first fun o handed => ?_
  cases o with
  | none => exact Prog.respects_pure (none_scoped _)
  | some o =>
      refine Prog.respects_bind (blind_command ignores (c := .assign name o) (handed o rfl))
        fun stored _ => ?_
      apply Prog.respects_pure
      cases stored with
      | true => exact handed
      | false => exact none_scoped _

theorem blind_isset {operand : Exp} (unread : operand.ignoresMatch = true) :
    BlindEval env (expIsset operand) := by
  cases operand with
  | symbol name =>
      have handed : NotMatch name := by
        simpa [Exp.ignoresMatch, Exp.all, Exp.notMatch, NotMatch] using unread
      exact Prog.respects_bind (blind_command ignores (c := .isSet name) handed) fun _ _ =>
        Prog.respects_pure (temp_scoped _ _)
  | _ => exact Prog.respects_pure (none_scoped _)

theorem blind_variable (name : String) : BlindEval env (expEvalVariable name) := by
  refine Prog.respects_bind (blind_command ignores (c := .var name) trivial) fun value handed => ?_
  apply Prog.respects_pure
  cases value with
  | none => exact temp_scoped _ _
  | some o => exact handed

theorem blind_macro (name : String) : BlindEval env (expEvalMacro name) := by
  refine Prog.respects_bind (blind_command ignores (c := .stage) trivial) fun stage _ => ?_
  cases stage with
  | none => exact Prog.respects_pure (none_scoped _)
  | some _ =>
      have ctx : NotMatch "milter_ctx" := by simp [NotMatch, aclMatchSymbols]
      have stagename : NotMatch "stagename" := by simp [NotMatch, aclMatchSymbols]
      refine Prog.respects_bind (blind_symbol ignores ctx) fun _ _ => ?_
      refine Prog.respects_bind (blind_symbol ignores stagename) fun _ _ => ?_
      split
      · exact Prog.respects_pure (temp_scoped _ _)
      · exact Prog.respects_bind (blind_command ignores (c := .getsymval name) trivial) fun _ _ =>
          Prog.respects_pure (temp_scoped _ _)

theorem blind_ternary {condition yes no : EvalM (Option Obj)} (first : BlindEval env condition)
    (second : BlindEval env yes) (third : BlindEval env no) :
    BlindEval env (expEvalTernary condition yes no) := by
  refine Prog.respects_bind first fun o handed => ?_
  cases o with
  | none => exact Prog.respects_pure (none_scoped _)
  | some o =>
      refine Prog.respects_bind (blind_truth ignores (handed o rfl)) fun status _ => ?_
      split
      · exact second
      · exact third

theorem blind_apply (op : Operation) {left right : EvalM (Option Obj)} (first : BlindEval env left)
    (second : BlindEval env right) : BlindEval env (expApply op left right) :=
  Prog.respects_bind first fun l handed => Prog.respects_bind second fun r handed' =>
    blind_command ignores (c := .operation op l r) ⟨handed, handed'⟩

theorem blind_call (f : Builtin) {args : EvalM (Option Obj)} (first : BlindEval env args) :
    BlindEval env (expCall f args) := by
  refine Prog.respects_bind first fun o handed => ?_
  cases o with
  | none => exact Prog.respects_pure (none_scoped _)
  | some o => exact blind_command ignores (c := .function f (some o)) handed

end Evaluator

mutual

theorem expEval_blind {env : AclEnv} (ignores : IgnoresMatch env) :
    ∀ e : Exp, e.ignoresMatch = true → BlindEval env (expEval e) := by
  intro e unread
  unfold expEval
  refine Prog.respects_bind (blind_command ignores (c := .visit e) trivial) fun _ _ => ?_
  unfold Exp.ignoresMatch Exp.all at unread
  rw [Bool.and_eq_true] at unread
  obtain ⟨here, inside⟩ := unread
  cases e with
  | parentheses inner => exact expEval_blind ignores inner inside
  | constant id => exact Prog.respects_pure fun x same => by cases same; exact trivial
  | list items =>
      refine Prog.respects_bind (expEvalList_blind ignores items inside) fun os handed => ?_
      exact Prog.respects_pure fun x same => by cases same; exact handed
  | symbol name =>
      have handed : NotMatch name := by simpa [Exp.notMatch, NotMatch] using here
      exact blind_symbol ignores handed
  | function f args =>
      cases args with
      | none => exact blind_command ignores (c := .function f none) (none_scoped _)
      | some args => exact blind_call ignores f (expEval_blind ignores args inside)
  | assign name value => exact blind_assign ignores name (expEval_blind ignores value inside)
  | isSet operand => exact blind_isset ignores inside
  | not operand => exact blind_not ignores (expEval_blind ignores operand inside)
  | isNull operand => exact blind_isNull ignores (expEval_blind ignores operand inside)
  | connective op left right =>
      simp only [Bool.and_eq_true] at inside
      exact blind_bool ignores op (expEval_blind ignores left inside.1)
        (expEval_blind ignores right inside.2)
  | operation op left right =>
      simp only [Bool.and_eq_true] at inside
      exact blind_apply ignores op (expEval_blind ignores left inside.1)
        (expEval_blind ignores right inside.2)
  | var name => exact blind_variable ignores name
  | macroRef name => exact blind_macro ignores name
  | ternary condition yes no =>
      simp only [Bool.and_eq_true] at inside
      exact blind_ternary ignores (expEval_blind ignores condition inside.1.1)
        (expEval_blind ignores yes inside.1.2) (expEval_blind ignores no inside.2)

theorem expEvalList_blind {env : AclEnv} (ignores : IgnoresMatch env) :
    ∀ items : List Exp, Exp.allItems Exp.notMatch items = true →
    Blind env (expEvalList items) (Obj.AllScoped NotMatch) := by
  intro items unread
  cases items with
  | nil => exact Prog.respects_pure trivial
  | cons item rest =>
      simp only [Exp.allItems, Bool.and_eq_true] at unread
      refine Prog.respects_bind (expEval_blind ignores item unread.1) fun o handed => ?_
      refine Prog.respects_bind (expEvalList_blind ignores rest unread.2) fun os handed' => ?_
      apply Prog.respects_pure
      cases o with
      | none => exact handed'
      | some o => exact ⟨handed o rfl, handed'⟩

end

/-! ## Rules -/

def AclAction.ignoresMatch : AclAction → Bool
  | .set exp => exp.ignoresMatch
  | .log message level => message.ignoresMatch && level.all Exp.ignoresMatch
  | .tarpit delay => delay.ignoresMatch
  | _ => true

def AclReply.ignoresMatch (reply : AclReply) : Bool :=
  reply.code.ignoresMatch && reply.xcode.all Exp.ignoresMatch && reply.message.ignoresMatch

/-- No match symbol occurs in the rule. -/
def AclRule.ignoresMatch (rule : AclRule) : Bool :=
  rule.expression.all Exp.ignoresMatch && rule.action.ignoresMatch &&
    rule.reply.all AclReply.ignoresMatch

theorem run_liftExp {env : AclEnv} {α : Type} (p : EvalM α) : ∀ w : World,
    (Prog.run (aclStep env) (liftExp p) w).result = (Prog.run (step env.toEnv) p w).result := by
  induction p with
  | pure a => intro w; rfl
  | call c next ih =>
      intro w
      change (Prog.run (aclStep env) (.call (.exp c) fun r => liftExp (next r)) w).result = _
      cases answer : step env.toEnv c w with
      | error fault =>
          have lifted : aclStep env (.exp c) w = .error fault := answer
          rw [Prog.run_call_error _ answer, Prog.run_call_error _ lifted]
      | ok answered =>
          have lifted : aclStep env (.exp c) w = .ok answered := answer
          rw [Prog.run_call_ok _ answer, Prog.run_call_ok _ lifted]
          exact ih answered.1 answered.2

/-- The same for a program of `acl`. -/
def BlindAcl {α : Type} (env : AclEnv) (p : AclM α) : Prop :=
  Prog.Respects (aclStep env) Alike p fun _ => True

theorem aclCommand_blind {env : AclEnv} {c : AclCommand}
    (same : ∀ v w, Alike v w → Prog.SameResult Alike (aclStep env c v) (aclStep env c w)) :
    BlindAcl env (aclCommand c) :=
  Prog.respects_issue fun v w alike => ⟨same v w alike, fun _ _ _ => trivial⟩

section Rules
variable {env : AclEnv} (ignores : IgnoresMatch env)
include ignores

theorem liftExp_blind {e : Exp} (unread : e.ignoresMatch = true) :
    Prog.Respects (aclStep env) Alike (liftExp (expEval e)) (ScopedResult NotMatch) := by
  intro v w alike
  rw [run_liftExp, run_liftExp]
  exact expEval_blind ignores e unread v w alike

theorem isTrue_blind {e : Option Exp} (unread : e.all Exp.ignoresMatch = true) :
    BlindAcl env (liftExp (expIsTrue e)) := by
  intro v w alike
  rw [run_liftExp, run_liftExp]
  revert v w
  change Blind env (expIsTrue e) fun _ => True
  cases e with
  | none => exact Prog.respects_pure trivial
  | some e =>
      refine Prog.respects_bind (expEval_blind ignores e unread) fun o handed => ?_
      cases o with
      | none => exact Prog.respects_pure trivial
      | some o =>
          exact Prog.respects_bind (blind_truth ignores (handed o rfl)) fun _ _ =>
            Prog.respects_pure trivial

theorem tarpit_alike {v w : World} (alike : Alike v w) (value : Value) :
    Prog.SameResult Alike (tarpit env value v) (tarpit env value w) := by
  have ctx : vtableGet v.symbols "milter_ctx" = vtableGet w.symbols "milter_ctx" := by
    simp only [vtableGet, alike.symbols "milter_ctx" (by simp [NotMatch, aclMatchSymbols])]
  have delayed : vtableGet v.symbols "tarpit_delayed" = vtableGet w.symbols "tarpit_delayed" := by
    simp only [vtableGet, alike.symbols "tarpit_delayed" (by simp [NotMatch, aclMatchSymbols])]
  unfold tarpit
  split
  · rename_i delay
    rw [ctx, ignores.sleep delay v w alike]
    by_cases nothing : delay ≤ 0
    · rw [if_pos nothing, if_pos nothing]
      exact ⟨rfl, alike⟩
    · rw [if_neg nothing, if_neg nothing]
      by_cases missing : (vtableGet w.symbols "milter_ctx").isNone = true
      · rw [if_pos missing, if_pos missing]
        exact ⟨rfl, alike⟩
      · rw [if_neg missing, if_neg missing]
        cases env.sleep delay w with
        | stopped => exact ⟨rfl, alike⟩
        | aborted => exact ⟨rfl, alike⟩
        | done =>
            refine ⟨rfl, ?_⟩
            simp only [tarpitDelayed, delayed]
            exact alike.set "tarpit_delayed" _
  · rfl
  · exact ⟨rfl, alike⟩

theorem logMessage_blind (level : Int) {message : Exp} (unread : message.ignoresMatch = true) :
    BlindAcl env (aclLogMessage level message) := by
  refine Prog.respects_bind (liftExp_blind ignores unread) fun o handed => ?_
  cases o with
  | none => exact Prog.respects_pure trivial
  | some o =>
      refine Prog.respects_bind (aclCommand_blind (c := .log level o) ?_) fun _ _ =>
        Prog.respects_pure trivial
      intro v w alike
      exact ⟨by simp only [value_congr alike.sameReads o (handed o rfl)], alike⟩

theorem log_blind {message : Exp} {level : Option Exp} (unread : message.ignoresMatch = true)
    (unread' : level.all Exp.ignoresMatch = true) : BlindAcl env (aclLog env message level) := by
  cases level with
  | none => exact logMessage_blind ignores env.logLevel unread
  | some level =>
      refine Prog.respects_bind (liftExp_blind ignores unread') fun o handed => ?_
      cases o with
      | none => exact Prog.respects_pure trivial
      | some o =>
          refine Prog.respects_bind (aclCommand_blind (c := .logLevel o) ?_) fun level _ =>
            logMessage_blind ignores level unread
          intro v w alike
          simp only [aclStep, value_congr alike.sameReads o (handed o rfl)]
          cases varIntval env.libc (o.value w) with
          | error fault => rfl
          | ok level => exact ⟨rfl, alike⟩

theorem set_blind {exp : Exp} (unread : exp.ignoresMatch = true) : BlindAcl env (aclSet exp) := by
  refine Prog.respects_bind (liftExp_blind ignores unread) fun o _ => ?_
  cases o with
  | none => exact Prog.respects_pure trivial
  | some o => exact Prog.respects_pure trivial

theorem tarpit_blind {delay : Exp} (unread : delay.ignoresMatch = true) :
    BlindAcl env (aclTarpit delay) := by
  refine Prog.respects_bind (liftExp_blind ignores unread) fun o handed => ?_
  cases o with
  | none => exact Prog.respects_pure trivial
  | some o =>
      refine aclCommand_blind (c := .tarpit o) fun v w alike => ?_
      simp only [aclStep, value_congr alike.sameReads o (handed o rfl)]
      exact tarpit_alike ignores alike _

theorem external_blind (action : ExternalAction) (stage : StageMask) :
    BlindAcl env (aclCommand (.external action stage)) :=
  aclCommand_blind fun v w alike =>
    ⟨(ignores.external action stage v w alike).2, (ignores.external action stage v w alike).1⟩

theorem evalReply_blind {exp : Exp} (unread : exp.ignoresMatch = true) :
    BlindAcl env (aclEvalReply env exp) := by
  refine Prog.respects_bind (liftExp_blind ignores unread) fun o handed => ?_
  cases o with
  | none => exact Prog.respects_pure trivial
  | some o =>
      refine Prog.respects_bind (aclCommand_blind (c := .exp (.value o)) ?_) fun _ _ =>
        Prog.respects_pure trivial
      intro v w alike
      exact step_alike ignores (c := .value o) (handed o rfl) alike

theorem setReply_blind (code : Bytes) (xcode : Option Bytes) (message : Bytes) :
    BlindAcl env (aclCommand (.setReply code xcode message)) :=
  aclCommand_blind fun v w alike => ⟨ignores.setReply code xcode message v w alike, alike⟩

theorem sendReply_blind (code : Bytes) {reply : AclReply} (unread : reply.ignoresMatch = true) :
    BlindAcl env (aclSendReply env code reply) := by
  simp only [AclReply.ignoresMatch, Bool.and_eq_true] at unread
  refine Prog.respects_bind (evalReply_blind ignores unread.2) fun message _ => ?_
  cases message with
  | none => exact Prog.respects_pure trivial
  | some message =>
      cases given : reply.xcode with
      | none => exact setReply_blind ignores code none message
      | some exp =>
          have unread' : exp.ignoresMatch = true := by simpa [given] using unread.1.2
          refine Prog.respects_bind (evalReply_blind ignores unread') fun xcode _ => ?_
          cases xcode with
          | none => exact Prog.respects_pure trivial
          | some xcode => exact setReply_blind ignores code (some xcode) message

theorem aclSetReply_blind {reply : AclReply} (unread : reply.ignoresMatch = true) (type : AclActionType) :
    BlindAcl env (aclSetReply env reply type) := by
  have sent (code : Bytes) (digit : UInt8) : BlindAcl env
      (if code.head? = some digit then aclSendReply env code reply else return false) := by
    split
    · exact sendReply_blind ignores code unread
    · exact Prog.respects_pure trivial
  have code : reply.code.ignoresMatch = true := by
    simp only [AclReply.ignoresMatch, Bool.and_eq_true] at unread
    exact unread.1.1
  refine Prog.respects_bind (evalReply_blind ignores code) fun code _ => ?_
  cases code with
  | none => exact Prog.respects_pure trivial
  | some code =>
      cases type with
      | reject => exact sent code 53
      | tempfail => exact sent code 52
      | greylist => exact sent code 52
      | _ => exact Prog.respects_pure trivial

/-- The end of a rule, whatever its number is. -/
theorem respond_alike {rule : AclRule} (unread : rule.ignoresMatch = true) (stage : StageMask)
    (number number' : Nat) (response : AclActionType) {v w : World} (alike : Alike v w) :
    Prog.SameResult Alike (aclPart env (aclRespond env stage number rule response) v)
      (aclPart env (aclRespond env stage number' rule response) w) := by
  have record (sent : Bool) {v w : World} (alike : Alike v w) :
      Prog.SameResult Alike (aclPart env (aclRecord stage number rule response sent) v)
        (aclPart env (aclRecord stage number' rule response sent) w) := by
    cases sent with
    | true => exact ⟨rfl, (aclMatch_alike _ _ _ _ _ _).trans (alike.trans (aclMatch_alike _ _ _ _ _ _).symm)⟩
    | false => exact ⟨rfl, alike⟩
  rw [aclRespond_eq, aclRespond_eq]
  cases given : rule.reply with
  | none => exact record true alike
  | some reply =>
      have unread' : reply.ignoresMatch = true := by
        simp only [AclRule.ignoresMatch, given, Bool.and_eq_true] at unread
        exact unread.2
      have same : Prog.SameResult Alike _ _ := (aclSetReply_blind ignores unread' response v w alike).1
      simp only [aclPart, Prog.result_bind]
      exact same.followed fun sent _ _ _ _ alike' => record sent alike'

end Rules

end Mopher
