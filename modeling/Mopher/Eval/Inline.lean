import Mopher.Eval.Blind

/-!
# `call` and `jump` are inlining

A rule `call t` without a condition and without a reply does what the rules of `t` do in
its place, and `jump t` does what they do when an unconditional `continue` follows them.
The rules of `t` are evaluated one level higher then, so an evaluation that has not
reached the recursion limit before does not reach it now; and rules get other numbers,
which only the match symbols tell.

The two evaluations go side by side, in mailspecs that differ in the match symbols only.
-/

set_option autoImplicit false

namespace Mopher

/-- The recursion limit is not reached: no invocation is handed its depth. -/
def WithinLimit (log : AclTraced) : Prop := ∀ event ∈ log.events, event.depth + 1 < maxRecursion

/-- The rest of a rule, once its action has answered. -/
def afterAction (env : AclEnv) (stage : StageMask) (number : Nat) (rule : AclRule)
    (others : World → Except Fault (AclActionType × World)) (response : AclActionType) (w : World) :
    Except Fault (AclActionType × World) :=
  match response with
  | .none => others w
  | .return => .ok (.none, w)
  | .error => .ok (.error, w)
  | response => aclPart env (aclRespond env stage number rule response) w

/-- A rule whose condition has come to `holds`. -/
def afterCondition (env : AclEnv) (nested : String → World → AclTraced) (stage : StageMask)
    (number : Nat) (rule : AclRule) (others : World → Except Fault (AclActionType × World))
    (holds : Int) (w : World) : Except Fault (AclActionType × World) :=
  if holds = 0 then others w
  else if holds = -1 then .ok (.error, w)
  else if actionStages rule.action.type &&& stage = 0 then .ok (.error, w)
  else
    (aclHandleTraced env nested stage rule.action w).result.bind fun answer =>
      afterAction env stage number rule others answer.1 answer.2

section Loop
variable {env : AclEnv} {nested : String → World → AclTraced} {stage : StageMask}

theorem aclRulesTraced_cons (depth : Nat) (table : String) (number : Nat) (rule : AclRule)
    (rest : List AclRule) (w : World) :
    (aclRulesTraced env nested stage depth table number (rule :: rest) w).result =
      (aclPart env (liftExp (expIsTrue rule.expression)) w).bind fun answer =>
        afterCondition env nested stage number rule
          (fun w => (aclRulesTraced env nested stage depth table (number + 1) rest w).result)
          answer.1 answer.2 := by
  simp only [aclRulesTraced, afterCondition]
  cases aclPart env (liftExp (expIsTrue rule.expression)) w with
  | error fault => rfl
  | ok answer =>
      obtain ⟨holds, w⟩ := answer
      simp only [Except.bind]
      split_ifs
      · rfl
      · rfl
      · rfl
      · cases (aclHandleTraced env nested stage rule.action w).result with
        | error fault => rfl
        | ok answer =>
            obtain ⟨response, w⟩ := answer
            cases response <;> rfl

/-- The evaluations that are part of the evaluation of a rule are within the limit, too. -/
theorem WithinLimit.rule {depth : Nat} {table : String} {number : Nat} {rule : AclRule}
    {rest : List AclRule} {w : World}
    (within : WithinLimit (aclRulesTraced env nested stage depth table number (rule :: rest) w))
    {holds : Int} {v : World} (evaluated : aclPart env (liftExp (expIsTrue rule.expression)) w = .ok (holds, v)) :
    (holds = 0 → WithinLimit (aclRulesTraced env nested stage depth table (number + 1) rest v)) ∧
      (holds ≠ 0 → holds ≠ -1 → actionStages rule.action.type &&& stage ≠ 0 →
        WithinLimit (aclHandleTraced env nested stage rule.action v) ∧
          ∀ u, (aclHandleTraced env nested stage rule.action v).result = .ok (.none, u) →
            WithinLimit (aclRulesTraced env nested stage depth table (number + 1) rest u)) := by
  simp only [WithinLimit, aclRulesTraced, evaluated] at within
  constructor
  · intro zero event member
    rw [if_pos zero] at within
    apply within
    simp [member]
  · intro notZero notFailed allowed
    rw [if_neg notZero, if_neg notFailed, if_neg allowed] at within
    cases answered : (aclHandleTraced env nested stage rule.action v).result with
    | error fault =>
        simp only [answered] at within
        refine ⟨fun event member => within event (List.mem_cons_of_mem _ member), ?_⟩
        intro u impossible
        cases impossible
    | ok answer =>
        obtain ⟨response, u⟩ := answer
        have part (event : AclEvent)
            (member : event ∈ (aclHandleTraced env nested stage rule.action v).events) :
            event.depth + 1 < maxRecursion := by
          cases response with
          | none =>
              simp only [answered] at within
              apply within
              simp [member]
          | _ =>
              simp only [answered] at within
              exact within event (List.mem_cons_of_mem _ member)
        refine ⟨part, ?_⟩
        intro u' same event member
        cases same
        simp only [answered] at within
        apply within
        simp [member]

end Loop

/-! ## Rules in two evaluations -/

section Alike
variable {env : AclEnv} (ignores : IgnoresMatch env) {nested nested' : String → World → AclTraced}
variable (same : ∀ table v w, Alike v w → WithinLimit (nested table v) →
  Prog.SameResult Alike (nested table v).result (nested' table w).result)
include ignores same

theorem handle_alike {action : AclAction} (unread : action.ignoresMatch = true) (stage : StageMask)
    {v w : World} (alike : Alike v w) (within : WithinLimit (aclHandleTraced env nested stage action v)) :
    Prog.SameResult Alike (aclHandleTraced env nested stage action v).result
      (aclHandleTraced env nested' stage action w).result := by
  cases action with
  | plain type => exact ⟨rfl, alike⟩
  | jump table =>
      have inner := same table v w alike within
      simp only [aclHandleTraced]
      cases left : (nested table v).result with
      | error fault =>
          cases right : (nested' table w).result with
          | error fault' => rw [left, right] at inner; exact inner
          | ok answer => rw [left, right] at inner; exact inner.elim
      | ok answer =>
          cases right : (nested' table w).result with
          | error fault' => rw [left, right] at inner; exact inner.elim
          | ok answer' =>
              rw [left, right] at inner
              obtain ⟨response, alike'⟩ := inner
              exact ⟨by simp only [response], alike'⟩
  | call table => exact same table v w alike within
  | set exp => exact (set_blind ignores unread v w alike).1
  | log message level =>
      simp only [AclAction.ignoresMatch, Bool.and_eq_true] at unread
      exact (log_blind ignores unread.1 unread.2 v w alike).1
  | tarpit delay => exact (tarpit_blind ignores unread v w alike).1
  | external action => exact (external_blind ignores action stage v w alike).1

/-- By induction on the rules that the tables have in common: what holds of the rules
after them holds of all. -/
theorem rules_alike {stage : StageMask} {depth depth' : Nat} {table table' : String}
    {rest rest' : List AclRule}
    (tail : ∀ number number' v w, Alike v w →
      WithinLimit (aclRulesTraced env nested stage depth table number rest v) →
      Prog.SameResult Alike (aclRulesTraced env nested stage depth table number rest v).result
        (aclRulesTraced env nested' stage depth' table' number' rest' w).result)
    (rules : List AclRule) : (∀ rule ∈ rules, rule.ignoresMatch = true) → ∀ number number' v w, Alike v w →
    WithinLimit (aclRulesTraced env nested stage depth table number (rules ++ rest) v) →
    Prog.SameResult Alike (aclRulesTraced env nested stage depth table number (rules ++ rest) v).result
      (aclRulesTraced env nested' stage depth' table' number' (rules ++ rest') w).result := by
  induction rules with
  | nil =>
      intro _ number number' v w alike within
      exact tail number number' v w alike within
  | cons rule rules ih =>
      intro unread number number' v w alike within
      have here := unread rule List.mem_cons_self
      have later := ih fun rule member => unread rule (List.mem_cons_of_mem _ member)
      have parts := here
      simp only [AclRule.ignoresMatch, Bool.and_eq_true] at parts
      rw [List.cons_append, List.cons_append, aclRulesTraced_cons, aclRulesTraced_cons]
      have condition : Prog.SameResult Alike (aclPart env (liftExp (expIsTrue rule.expression)) v)
          (aclPart env (liftExp (expIsTrue rule.expression)) w) :=
        (isTrue_blind ignores parts.1.1 v w alike).1
      refine condition.followed ?_
      intro holds v₁ w₁ left _ alike₁
      obtain ⟨skipped, acted⟩ := within.rule left
      unfold afterCondition
      by_cases zero : holds = 0
      · rw [if_pos zero, if_pos zero]
        exact later (number + 1) (number' + 1) v₁ w₁ alike₁ (skipped zero)
      rw [if_neg zero, if_neg zero]
      by_cases failed : holds = -1
      · rw [if_pos failed, if_pos failed]
        exact ⟨rfl, alike₁⟩
      rw [if_neg failed, if_neg failed]
      by_cases denied : actionStages rule.action.type &&& stage = 0
      · rw [if_pos denied, if_pos denied]
        exact ⟨rfl, alike₁⟩
      rw [if_neg denied, if_neg denied]
      obtain ⟨withinAction, withinRest⟩ := acted zero failed denied
      refine (handle_alike ignores same parts.1.2 stage alike₁ withinAction).followed ?_
      intro response v₂ w₂ answered _ alike₂
      cases response with
      | none => exact later (number + 1) (number' + 1) v₂ w₂ alike₂ (withinRest v₂ answered)
      | «return» => exact ⟨rfl, alike₂⟩
      | error => exact ⟨rfl, alike₂⟩
      | _ => exact respond_alike ignores here stage number number' _ alike₂

end Alike

/-! ## Rules that do not return -/

theorem bind_answered {F α β : Type} {x : Except F α} {f : α → Except F β} {b : β}
    (answered : x.bind f = .ok b) : ∃ a, x = .ok a ∧ f a = .ok b := by
  cases x with
  | error fault => cases answered
  | ok a => exact ⟨a, rfl, answered⟩

theorem map_followed {F α β γ : Type} (x : Except F α) (f : α → β) (g : β → Except F γ) :
    (x.map f).bind g = x.bind fun a => g (f a) := by
  cases x with
  | error fault => rfl
  | ok a => rfl

section NoReturn
variable {env : AclEnv} {nested : String → World → AclTraced} {stage : StageMask}

/-- The end of a rule answers with the response of its action, or fails. -/
theorem respond_answer {number : Nat} {rule : AclRule} {response action : AclActionType} {w w' : World}
    (answered : aclPart env (aclRespond env stage number rule response) w = .ok (action, w')) :
    action = response ∨ action = .error := by
  have record (sent : Bool) {v : World}
      (answered : aclPart env (aclRecord stage number rule response sent) v = .ok (action, w')) :
      action = response ∨ action = .error := by
    cases sent with
    | true => cases answered; exact .inl rfl
    | false => cases answered; exact .inr rfl
  rw [aclRespond_eq] at answered
  split at answered
  · exact record true answered
  · obtain ⟨sent, v, _, second, _⟩ := Prog.run_bind_inv _ answered
    exact record sent second

/-- Nothing follows the end of a rule: it does not answer with `ACL_NONE`. -/
theorem respond_final {number : Nat} {rule : AclRule} {response : AclActionType} (notNone : response ≠ .none)
    (others : World → Except Fault (AclActionType × World)) (w : World) :
    aclPart env (aclRespond env stage number rule response) w =
      (aclPart env (aclRespond env stage number rule response) w).bind fun answer =>
        if answer.1 = .none then others answer.2 else .ok answer := by
  cases final : aclPart env (aclRespond env stage number rule response) w with
  | error fault => rfl
  | ok answer =>
      obtain ⟨action, w'⟩ := answer
      have notNone' : action ≠ .none := by
        rcases respond_answer final with rfl | rfl
        · exact notNone
        · decide
      exact (if_neg notNone').symm

/-- No invocation answers with `ACL_RETURN`. -/
theorem rules_notReturn (depth : Nat) (table : String) (rules : List AclRule) :
    ∀ (number : Nat) (w w' : World),
    (aclRulesTraced env nested stage depth table number rules w).result ≠ .ok (.return, w') := by
  induction rules with
  | nil => intro number w w' answered; cases answered
  | cons rule rest ih =>
      intro number w w' answered
      rw [aclRulesTraced_cons] at answered
      obtain ⟨⟨holds, w₁⟩, _, answered⟩ := bind_answered answered
      unfold afterCondition at answered
      split_ifs at answered
      · exact ih (number + 1) w₁ w' answered
      · cases answered
      · cases answered
      · obtain ⟨⟨response, w₂⟩, _, answered⟩ := bind_answered answered
        unfold afterAction at answered
        split at answered
        · exact ih (number + 1) w₂ w' answered
        · cases answered
        · cases answered
        · rename_i notReturn _
          rcases respond_answer answered with same | failed
          · exact notReturn same.symm
          · cases failed

/-- What follows the evaluation of an expression has answered. -/
theorem evaluated_answer {exp : Exp} {f : Option Obj → AclM AclActionType} {answer : AclActionType × World}
    {w : World} (answered : aclPart env (liftExp (expEval exp) >>= f) w = .ok answer) :
    ∃ o v, aclPart env (f o) v = .ok answer := by
  obtain ⟨o, v, _, second, _⟩ := Prog.run_bind_inv _ answered
  exact ⟨o, v, second⟩

theorem logMessage_notReturn (level : Int) (message : Exp) (w w' : World) :
    aclPart env (aclLogMessage level message) w ≠ .ok (.return, w') := by
  intro answered
  obtain ⟨o, v, second⟩ := evaluated_answer answered
  cases o with
  | none => cases second
  | some o =>
      obtain ⟨rendered, _, _, third, _⟩ := Prog.run_bind_inv _ second
      cases rendered <;> cases third

theorem log_notReturn (message : Exp) (level : Option Exp) (w w' : World) :
    aclPart env (aclLog env message level) w ≠ .ok (.return, w') := by
  intro answered
  cases level with
  | none => exact logMessage_notReturn _ message w w' answered
  | some level =>
      obtain ⟨o, v, second⟩ := evaluated_answer answered
      cases o with
      | none => cases second
      | some o =>
          obtain ⟨level, u, _, third, _⟩ := Prog.run_bind_inv _ second
          exact logMessage_notReturn level message u w' third

theorem tarpitAction_notReturn (delay : Exp) (w w' : World) :
    aclPart env (aclTarpit delay) w ≠ .ok (.return, w') := by
  intro answered
  obtain ⟨o, v, second⟩ := evaluated_answer answered
  cases o with
  | none => cases second
  | some o =>
      simp only [aclPart, aclCommand, Prog.run_issue, aclStep, tarpit] at second
      split at second
      · split_ifs at second
        · cases second
        · cases second
        · split at second <;> cases second
      · cases second
      · cases second

/-- Only a rule `return` makes the rules after it unreachable without an answer. -/
theorem handle_notReturn (answers : ∀ action stage w, (env.external action stage w).2 ≠ .return)
    (inner : ∀ table w w', (nested table w).result ≠ .ok (.return, w')) {action : AclAction}
    (plain : action ≠ .plain .return) (w w' : World) :
    (aclHandleTraced env nested stage action w).result ≠ .ok (.return, w') := by
  intro answered
  cases action with
  | plain type =>
      cases answered
      exact plain rfl
  | jump table =>
      simp only [aclHandleTraced] at answered
      cases result : (nested table w).result with
      | error fault => rw [result] at answered; cases answered
      | ok answer =>
          obtain ⟨response, u⟩ := answer
          rw [result] at answered
          by_cases nothing : response = .none
          · subst nothing
            cases answered
          · simp only [Except.map, if_neg nothing, Except.ok.injEq, Prod.mk.injEq] at answered
            exact inner table w u (by rw [result, answered.1])
  | call table => exact inner table w w' answered
  | set exp =>
      obtain ⟨o, u, second⟩ := evaluated_answer answered
      cases o <;> cases second
  | log message level => exact log_notReturn message level w w' answered
  | tarpit delay => exact tarpitAction_notReturn delay w w' answered
  | external action =>
      simp only [aclHandleTraced, aclPart, aclCommand, Prog.run_issue, aclStep] at answered
      exact answers action stage w (congrArg Prod.fst (Except.ok.inj answered))

/-- The rules after rules that do not return. -/
theorem rules_append {depth : Nat} {table : String} (after : List AclRule) (rules : List AclRule) :
    (∀ rule ∈ rules, ∀ w w', (aclHandleTraced env nested stage rule.action w).result ≠ .ok (.return, w')) →
    ∀ (number : Nat) (w : World),
    (aclRulesTraced env nested stage depth table number (rules ++ after) w).result =
      (aclRulesTraced env nested stage depth table number rules w).result.bind fun answer =>
        if answer.1 = .none then
          (aclRulesTraced env nested stage depth table (number + rules.length) after answer.2).result
        else .ok answer := by
  induction rules with
  | nil => intro _ number w; rfl
  | cons rule rest ih =>
      intro plain number w
      have later := ih fun rule member => plain rule (List.mem_cons_of_mem _ member)
      have length : number + (rule :: rest).length = number + 1 + rest.length := by
        rw [List.length_cons]
        omega
      rw [List.cons_append, aclRulesTraced_cons, aclRulesTraced_cons, length]
      cases aclPart env (liftExp (expIsTrue rule.expression)) w with
      | error fault => rfl
      | ok answer =>
          obtain ⟨holds, w₁⟩ := answer
          change afterCondition env nested stage number rule _ holds w₁ =
            (afterCondition env nested stage number rule _ holds w₁).bind _
          unfold afterCondition
          split_ifs
          · exact later (number + 1) w₁
          · rfl
          · rfl
          · cases answered : (aclHandleTraced env nested stage rule.action w₁).result with
            | error fault => rfl
            | ok answer =>
                obtain ⟨response, w₂⟩ := answer
                have responded (notNone : response ≠ .none) :=
                  @respond_final env stage number rule response notNone (fun w => (aclRulesTraced env nested
                    stage depth table (number + 1 + rest.length) after w).result) w₂
                cases response with
                | none => exact later (number + 1) w₂
                | «return» => exact (plain rule List.mem_cons_self w₁ w₂ answered).elim
                | error => rfl
                | _ => exact responded (by decide)

end NoReturn

/-! ## Invocations -/

/-- The rules of a table; a missing one counts as empty. -/
def tableRules (env : AclEnv) (table : String) : List AclRule := (env.tables table).getD []

/-- Parts of a rule do not depend on the tables. -/
theorem aclRulesTraced_tables (env : AclEnv) (tables : String → Option (List AclRule))
    (nested : String → World → AclTraced) (stage : StageMask) (depth : Nat) (table : String) (rules : List AclRule) :
    ∀ (number : Nat) (w : World),
    aclRulesTraced { env with tables := tables } nested stage depth table number rules w =
      aclRulesTraced env nested stage depth table number rules w := by
  induction rules with
  | nil => intro number w; rfl
  | cons rule rest ih =>
      intro number w
      simp only [aclRulesTraced, ih]
      rfl

section Invocation
variable {env : AclEnv} {stage : StageMask}

theorem aclTraced_within {depth : Nat} {table : String} {w : World}
    (within : WithinLimit (aclTraced env stage depth table w)) : depth + 1 < maxRecursion := by
  rw [aclTraced] at within
  exact within (.enter depth table) List.mem_cons_self

/-- An invocation above the limit evaluates its rules. -/
theorem aclTraced_rules {depth : Nat} (below : depth + 1 < maxRecursion) (table : String) (w : World) :
    (aclTraced env stage depth table w).result =
      (aclRulesTraced env (aclTraced env stage (depth + 1)) stage depth table 1 (tableRules env table)
        w).result := by
  rw [aclTraced, tableRules]
  simp only [if_pos below]
  cases env.tables table with
  | none => rfl
  | some rules => rfl

theorem WithinLimit.rules {depth : Nat} {table : String} {w : World}
    (within : WithinLimit (aclTraced env stage depth table w)) :
    WithinLimit (aclRulesTraced env (aclTraced env stage (depth + 1)) stage depth table 1
      (tableRules env table) w) := by
  have below := aclTraced_within within
  rw [aclTraced] at within
  simp only [if_pos below] at within
  intro event member
  apply within
  rw [tableRules] at member
  cases found : env.tables table with
  | none => rw [found] at member; cases member
  | some rules =>
      rw [found] at member
      simp only [Option.getD_some] at member
      simp [member]

theorem aclTraced_notReturn (depth : Nat) (table : String) (w w' : World) :
    (aclTraced env stage depth table w).result ≠ .ok (.return, w') := by
  by_cases below : depth + 1 < maxRecursion
  · rw [aclTraced_rules below]
    exact rules_notReturn depth table _ 1 w w'
  · rw [aclTraced]
    simp only [if_neg below]
    intro impossible
    cases impossible

end Invocation

/-! ## Inlining -/

/-- A rule without a condition and without a reply. -/
def AclRule.Bare (rule : AclRule) : Prop := rule.expression = none ∧ rule.reply = none

/-- The tables with other rules under one name. -/
def withRules (env : AclEnv) (table : String) (rules : List AclRule) : AclEnv :=
  { env with tables := Function.update env.tables table (some rules) }

section Bare
variable {env : AclEnv} {nested : String → World → AclTraced} {stage : StageMask} {rule : AclRule}

/-- A bare rule acts, and its action answers. -/
theorem bare_result (bare : rule.Bare) (allowed : actionStages rule.action.type &&& stage ≠ 0)
    (depth : Nat) (table : String) (number : Nat) (rest : List AclRule) (w : World) :
    (aclRulesTraced env nested stage depth table number (rule :: rest) w).result =
      (aclHandleTraced env nested stage rule.action w).result.bind fun answer =>
        afterAction env stage number rule
          (fun w => (aclRulesTraced env nested stage depth table (number + 1) rest w).result)
          answer.1 answer.2 := by
  rw [aclRulesTraced_cons, bare.1]
  change afterCondition env nested stage number rule _ 1 w = _
  unfold afterCondition
  rw [if_neg (by decide), if_neg (by decide), if_neg allowed]

/-- The end of a bare rule is its record. -/
theorem bare_respond (bare : rule.Bare) (number : Nat) (response : AclActionType) (w : World) :
    aclPart env (aclRespond env stage number rule response) w =
      .ok (response, aclMatch w stage number rule.filename rule.line response) := by
  rw [aclRespond_eq, bare.2]
  rfl

theorem bare_within (bare : rule.Bare) (allowed : actionStages rule.action.type &&& stage ≠ 0)
    {depth : Nat} {table : String} {number : Nat} {rest : List AclRule} {w : World}
    (within : WithinLimit (aclRulesTraced env nested stage depth table number (rule :: rest) w)) :
    WithinLimit (aclHandleTraced env nested stage rule.action w) ∧
      ∀ u, (aclHandleTraced env nested stage rule.action w).result = .ok (.none, u) →
        WithinLimit (aclRulesTraced env nested stage depth table (number + 1) rest u) := by
  have evaluated : aclPart env (liftExp (expIsTrue rule.expression)) w = .ok (1, w) := by
    rw [bare.1]
    rfl
  exact (within.rule evaluated).2 (by decide) (by decide) allowed

end Bare

/-- An invocation comes to the same with other tables, and higher up. -/
def Agrees (env : AclEnv) (tables : String → Option (List AclRule)) (stage : StageMask) (depth : Nat) :
    Prop :=
  ∀ depth' ≤ depth, ∀ table v w, Alike v w → WithinLimit (aclTraced env stage depth table v) →
    Prog.SameResult Alike (aclTraced env stage depth table v).result
      (aclTraced { env with tables := tables } stage depth' table w).result

/-- `rule :: after` comes to the same as `inlined`. -/
def Replaces (env : AclEnv) (tables : String → Option (List AclRule)) (stage : StageMask)
    (name : String) (rules inlined : List AclRule) : Prop :=
  ∀ depth depth', depth' ≤ depth → Agrees env tables stage (depth + 1) →
    Agrees env tables stage (depth + 2) → ∀ number number' v w, Alike v w →
    WithinLimit (aclRulesTraced env (aclTraced env stage (depth + 1)) stage depth name number rules v) →
    Prog.SameResult Alike
      (aclRulesTraced env (aclTraced env stage (depth + 1)) stage depth name number rules v).result
      (aclRulesTraced env (aclTraced { env with tables := tables } stage (depth' + 1)) stage depth' name
        number' inlined w).result

section Inlining
variable {env : AclEnv} (ignores : IgnoresMatch env)
variable (answers : ∀ action stage w, (env.external action stage w).2 ≠ .return)
variable (unread : ∀ table, ∀ rule ∈ tableRules env table, rule.ignoresMatch = true)
variable {tables : String → Option (List AclRule)} {stage : StageMask}

theorem Agrees.nested {depth depth' : Nat} (agrees : Agrees env tables stage depth) (le : depth' ≤ depth)
    (table : String) (v w : World) (alike : Alike v w)
    (within : WithinLimit (aclTraced env stage depth table v)) :
    Prog.SameResult Alike (aclTraced env stage depth table v).result
      (aclTraced { env with tables := tables } stage depth' table w).result :=
  agrees depth' le table v w alike within

/-- What a bare rule makes of the answer of the table: it records it. -/
theorem bare_alike {rule : AclRule} (bare : rule.Bare) {response : AclActionType} (number : Nat)
    (others : World → Except Fault (AclActionType × World)) (notNone : response ≠ .none)
    (notReturn : response ≠ .return) {v w : World} (alike : Alike v w) :
    Prog.SameResult Alike (afterAction env stage number rule others response v) (.ok (response, w)) := by
  have recorded : Prog.SameResult Alike (aclPart env (aclRespond env stage number rule response) v)
      (.ok (response, w)) := by
    rw [bare_respond bare]
    exact ⟨rfl, (aclMatch_alike _ _ _ _ _ _).trans alike⟩
  cases response with
  | none => exact (notNone rfl).elim
  | «return» => exact (notReturn rfl).elim
  | error => exact ⟨rfl, alike⟩
  | _ => exact recorded

/-- None of the rules of the table returns, where they are inlined. -/
theorem inlined_notReturn (answers : ∀ action stage w, (env.external action stage w).2 ≠ .return)
    {table : String}
    (plain : ∀ rule ∈ tableRules env table, rule.action ≠ .plain .return) (depth : Nat) (rule : AclRule)
    (member : rule ∈ tableRules env table) (w w' : World) :
    (aclHandleTraced env (aclTraced { env with tables := tables } stage depth) stage rule.action w).result ≠
      .ok (.return, w') :=
  handle_notReturn answers (fun table w w' => aclTraced_notReturn depth table w w') (plain rule member) w w'

include ignores

/-- The same rules, with nested invocations that agree. -/
theorem same_rules {depth depth' : Nat} (agrees : Agrees env tables stage (depth + 1))
    (le : depth' ≤ depth + 1) {name name' : String} {rules : List AclRule}
    (ignored : ∀ rule ∈ rules, rule.ignoresMatch = true) {level : Nat} (number number' : Nat) {v w : World}
    (alike : Alike v w)
    (within : WithinLimit
      (aclRulesTraced env (aclTraced env stage (depth + 1)) stage depth name number rules v)) :
    Prog.SameResult Alike
      (aclRulesTraced env (aclTraced env stage (depth + 1)) stage depth name number rules v).result
      (aclRulesTraced env (aclTraced { env with tables := tables } stage depth') stage level name' number'
        rules w).result := by
  rw [← List.append_nil rules] at within ⊢
  refine rules_alike ignores (agrees.nested le) ?_ rules ignored number number' v w alike within
  intro _ _ _ _ alike _
  exact ⟨rfl, alike⟩

include unread

/-- The rules of the table, where they are called and where they are inlined. -/
theorem inlined_rules {depth depth' : Nat} (agrees : Agrees env tables stage (depth + 2))
    (le : depth' ≤ depth) (name table : String) (number' : Nat) {v w : World} (alike : Alike v w)
    (within : WithinLimit (aclTraced env stage (depth + 1) table v)) :
    Prog.SameResult Alike (aclTraced env stage (depth + 1) table v).result
      (aclRulesTraced env (aclTraced { env with tables := tables } stage (depth' + 1)) stage depth' name
        number' (tableRules env table) w).result := by
  rw [aclTraced_rules (aclTraced_within within)]
  exact same_rules ignores agrees (by omega) (unread table) 1 number' alike within.rules

include answers

theorem call_replaced {name table : String} {rule : AclRule} {after : List AclRule} (bare : rule.Bare)
    (action : rule.action = .call table) (allowed : actionStages .call &&& stage ≠ 0)
    (plain : ∀ rule ∈ tableRules env table, rule.action ≠ .plain .return)
    (ignored : ∀ rule ∈ after, rule.ignoresMatch = true) :
    Replaces env tables stage name (rule :: after) (tableRules env table ++ after) := by
  intro depth depth' le agrees agrees' number number' v w alike within
  have allowed' : actionStages rule.action.type &&& stage ≠ 0 := by rw [action]; exact allowed
  obtain ⟨withinAction, withinRest⟩ := bare_within bare allowed' within
  rw [bare_result bare allowed', action]
  rw [action] at withinAction withinRest
  rw [rules_append after _ (inlined_notReturn answers plain _)]
  refine (inlined_rules ignores unread agrees' le name table number' alike withinAction).followed ?_
  intro response v₁ w₁ answered _ alike₁
  by_cases nothing : response = .none
  · subst nothing
    exact same_rules ignores agrees (by omega) ignored _ _ alike₁ (withinRest v₁ answered)
  · simp only [if_neg nothing]
    refine bare_alike bare number _ nothing ?_ alike₁
    rintro rfl
    exact aclTraced_notReturn _ table v v₁ answered

theorem jump_replaced {name table : String} {rule next : AclRule} {after : List AclRule} (bare : rule.Bare)
    (action : rule.action = .jump table) (allowed : actionStages .jump &&& stage ≠ 0)
    (bare' : next.Bare) (action' : next.action = .plain .continue)
    (plain : ∀ rule ∈ tableRules env table, rule.action ≠ .plain .return) :
    Replaces env tables stage name (rule :: after) (tableRules env table ++ next :: after) := by
  intro depth depth' le agrees agrees' number number' v w alike within
  have allowed' : actionStages rule.action.type &&& stage ≠ 0 := by rw [action]; exact allowed
  -- `continue` is allowed where `jump` is
  have allowedNext : actionStages next.action.type &&& stage ≠ 0 := by rw [action']; exact allowed
  obtain ⟨withinAction, _⟩ := bare_within bare allowed' within
  rw [bare_result bare allowed', action]
  rw [action] at withinAction
  rw [rules_append (next :: after) _ (inlined_notReturn answers plain _)]
  simp only [aclHandleTraced, map_followed]
  refine (inlined_rules ignores unread agrees' le name table number' alike withinAction).followed ?_
  intro response v₁ w₁ answered _ alike₁
  by_cases nothing : response = .none
  · subst nothing
    simp only [if_true]
    rw [bare_result bare' allowedNext, action']
    change Prog.SameResult Alike _ (aclPart env (aclRespond env stage _ next .continue) w₁)
    rw [bare_respond bare']
    exact bare_alike bare number _ (by decide) (by decide) (alike₁.trans (aclMatch_alike _ _ _ _ _ _).symm)
  · simp only [if_neg nothing]
    refine bare_alike bare number _ nothing ?_ alike₁
    rintro rfl
    exact aclTraced_notReturn _ table v v₁ answered

end Inlining

/-- By induction on how far the limit is: the tables have the rules before the replaced
one in common, and every other table. -/
theorem agrees_of_replaces {env : AclEnv} (ignores : IgnoresMatch env)
    (unread : ∀ table, ∀ rule ∈ tableRules env table, rule.ignoresMatch = true) {stage : StageMask}
    {name : String} {before rules inlined : List AclRule}
    (found : env.tables name = some (before ++ rules))
    (replaces : Replaces env (Function.update env.tables name (some (before ++ inlined))) stage name rules
      inlined) (left : Nat) : ∀ depth, maxRecursion - depth = left →
    Agrees env (Function.update env.tables name (some (before ++ inlined))) stage depth := by
  induction left using Nat.strong_induction_on with
  | _ left ih =>
      intro depth eq depth' le table v w alike within
      have below := aclTraced_within within
      have level : depth' + 1 ≤ depth + 1 := by omega
      have next := ih (maxRecursion - (depth + 1)) (by omega) (depth + 1) rfl
      have afterNext := ih (maxRecursion - (depth + 2)) (by omega) (depth + 2) rfl
      rw [aclTraced_rules below, aclTraced_rules (by omega),
        aclRulesTraced_tables env (Function.update env.tables name (some (before ++ inlined)))]
      by_cases here : table = name
      · subst here
        have original : tableRules env table = before ++ rules := by simp [tableRules, found]
        have replaced : tableRules { env with
            tables := Function.update env.tables table (some (before ++ inlined)) } table =
            before ++ inlined := by simp [tableRules]
        have withinRules := within.rules
        rw [original] at withinRules
        rw [original, replaced]
        refine rules_alike ignores (next.nested level) ?_ before ?_ 1 1 v w alike withinRules
        · exact replaces depth depth' le next afterNext
        · intro rule member
          exact unread table rule (by rw [original]; exact List.mem_append_left _ member)
      · have same : tableRules { env with
            tables := Function.update env.tables name (some (before ++ inlined)) } table =
            tableRules env table := by simp [tableRules, here]
        rw [same]
        exact same_rules ignores next level (unread table) 1 1 alike within.rules

/-- The action that `acl` returns, and the mailspec that it leaves. -/
def aclResult (env : AclEnv) (stage : StageMask) (table : String) (w : World) :
    Except Fault (AclActionType × World) :=
  (Prog.run (aclStep env) (acl env stage aclDepth table) w).result

theorem Agrees.acl {env : AclEnv} {tables : String → Option (List AclRule)} {stage : StageMask}
    (agrees : Agrees env tables stage 0) {table : String} {w : World}
    (within : WithinLimit (aclTraced env stage 0 table w)) :
    Prog.SameResult Alike (aclResult env stage table w)
      (aclResult { env with tables := tables } stage table w) := by
  have same := agrees 0 (Nat.le_refl 0) table w w (Alike.refl w) within
  rw [aclTraced_result stage aclDepth 0 table w (by omega),
    aclTraced_result stage aclDepth 0 table w (by omega)] at same
  exact same

/-- Where no rule reads the match symbols and the recursion limit is not reached, `acl`
returns the same action and leaves the same mailspec, but for the match symbols: when a
bare rule `call t` is replaced by the rules of `t`, and when a bare rule `jump t` is
replaced by the rules of `t` and an unconditional `continue`. -/
theorem call_and_jump_are_inlining {env : AclEnv} (ignores : IgnoresMatch env)
    (answers : ∀ action stage w, (env.external action stage w).2 ≠ .return)
    (unread : ∀ table, ∀ rule ∈ tableRules env table, rule.ignoresMatch = true)
    {stage : StageMask} {name table : String} {before after : List AclRule} {rule : AclRule}
    (found : env.tables name = some (before ++ rule :: after)) (bare : rule.Bare)
    (plain : ∀ rule ∈ tableRules env table, rule.action ≠ .plain .return)
    (stagename : String) (w : World) (within : WithinLimit (aclTraced env stage 0 stagename w)) :
    (rule.action = .call table → actionStages .call &&& stage ≠ 0 →
      Prog.SameResult Alike (aclResult env stage stagename w)
        (aclResult (withRules env name (before ++ (tableRules env table ++ after))) stage stagename w)) ∧
    (rule.action = .jump table → actionStages .jump &&& stage ≠ 0 →
      ∀ next : AclRule, next.Bare → next.action = .plain .continue →
      Prog.SameResult Alike (aclResult env stage stagename w)
        (aclResult (withRules env name (before ++ (tableRules env table ++ next :: after))) stage stagename
          w)) := by
  have ignored (other : AclRule) (member : other ∈ after) : other.ignoresMatch = true := by
    refine unread name other ?_
    simp [tableRules, found, member]
  constructor
  · intro action allowed
    have agrees := agrees_of_replaces ignores unread found
      (call_replaced ignores answers unread bare action allowed plain ignored) maxRecursion 0 rfl
    exact agrees.acl within
  · intro action allowed next bare' action'
    have agrees := agrees_of_replaces ignores unread found
      (jump_replaced ignores answers unread bare action allowed bare' action' plain) maxRecursion 0 rfl
    exact agrees.acl within

/-- Two tables: `connect` with a rule and then `accept`, and `t` with `reject`. -/
def twoTables (rule : AclRule) : AclEnv :=
  { oneTable [] with
    tables := fun name =>
      if name = "connect" then some [rule, always (.plain .accept)]
      else if name = "t" then some [always (.plain .reject)]
      else none }

theorem twoTables_ignores (rule : AclRule) : IgnoresMatch (twoTables rule) where
  callback found := by cases found
  sleep _ _ _ _ := rfl
  external _ _ _ _ alike := ⟨alike, rfl⟩
  setReply _ _ _ _ _ _ := rfl

/-- An invocation whose rules are within the limit. -/
theorem withinLimit_aclTraced {env : AclEnv} {stage : StageMask} {depth : Nat} {table : String} {w : World}
    (below : depth + 1 < maxRecursion)
    (rules : WithinLimit (aclRulesTraced env (aclTraced env stage (depth + 1)) stage depth table 1
      (tableRules env table) w)) : WithinLimit (aclTraced env stage depth table w) := by
  rw [aclTraced]
  simp only [if_pos below]
  intro event member
  rcases List.mem_append.mp member with inside | last
  · rcases List.mem_cons.mp inside with rfl | inside
    · exact below
    · apply rules event
      rw [tableRules]
      cases found : env.tables table with
      | none => rw [found] at inside; cases inside
      | some list => rw [found] at inside; exact inside
  · unfold leaves at last
    split at last
    · cases last
    · cases List.mem_singleton.mp last
      exact below

/-- A bare rule that ends its table. -/
theorem withinLimit_bare {env : AclEnv} {nested : String → World → AclTraced} {stage : StageMask}
    {rule : AclRule} (bare : rule.Bare) (allowed : actionStages rule.action.type &&& stage ≠ 0) {depth : Nat}
    (below : depth + 1 < maxRecursion) {w w' : World}
    (answered : (aclHandleTraced env nested stage rule.action w).result = .ok (.reject, w'))
    (inner : WithinLimit (aclHandleTraced env nested stage rule.action w)) (table : String) (number : Nat)
    (rest : List AclRule) :
    WithinLimit (aclRulesTraced env nested stage depth table number (rule :: rest) w) := by
  have evaluated : aclPart env (liftExp (expIsTrue rule.expression)) w = .ok (1, w) := by
    rw [bare.1]
    rfl
  simp only [WithinLimit, aclRulesTraced, evaluated]
  rw [if_neg (by decide), if_neg (by decide), if_neg allowed]
  simp only [answered]
  exact List.forall_mem_cons.mpr ⟨below, inner⟩

section TwoTables
variable {action : AclAction}

theorem twoTables_unread (ignores : action.ignoresMatch = true) (table : String) (rule : AclRule)
    (member : rule ∈ tableRules (twoTables (always action)) table) : rule.ignoresMatch = true := by
  simp only [tableRules, twoTables] at member
  split_ifs at member
  · rcases List.mem_cons.mp member with rfl | member
    · simpa [AclRule.ignoresMatch, always] using ignores
    · cases List.mem_singleton.mp member
      rfl
  · cases List.mem_singleton.mp member
    rfl
  · cases member

theorem twoTables_plain (rule : AclRule) (member : rule ∈ tableRules (twoTables (always action)) "t") :
    rule.action ≠ .plain .return := by
  cases List.mem_singleton.mp member
  intro impossible
  cases impossible

theorem twoTables_answers (external : ExternalAction) (stage : StageMask) (w : World) :
    ((twoTables (always action)).external external stage w).2 ≠ .return := by
  intro impossible
  cases impossible

/-- The invocation of `t`, one level below. -/
theorem twoTables_inner (action : AclAction) (w : World) :
    (∃ w', (aclTraced (twoTables (always action)) MilterStage.connect.mask 1 "t" w).result =
      .ok (.reject, w')) ∧
    WithinLimit (aclTraced (twoTables (always action)) MilterStage.connect.mask 1 "t" w) := by
  constructor
  · rw [aclTraced_rules (by decide)]
    exact ⟨_, rfl⟩
  · apply withinLimit_aclTraced (by decide)
    apply withinLimit_bare ⟨rfl, rfl⟩ (by decide) (by decide) rfl
    intro event member
    cases member

theorem twoTables_within (called : action = .call "t" ∨ action = .jump "t") (w : World) :
    WithinLimit (aclTraced (twoTables (always action)) MilterStage.connect.mask 0 "connect" w) := by
  obtain ⟨⟨w', answered⟩, below⟩ := twoTables_inner action w
  have answer : (aclHandleTraced (twoTables (always action))
      (aclTraced (twoTables (always action)) MilterStage.connect.mask 1) MilterStage.connect.mask
      (always action).action w).result = .ok (.reject, w') := by
    rcases called with rfl | rfl
    · exact answered
    · change Except.map _ (aclTraced _ MilterStage.connect.mask 1 "t" w).result = _
      rw [answered]
      rfl
  have handled : WithinLimit (aclHandleTraced (twoTables (always action))
      (aclTraced (twoTables (always action)) MilterStage.connect.mask 1) MilterStage.connect.mask
      (always action).action w) := by
    rcases called with rfl | rfl
    · exact below
    · exact below
  have allowed : actionStages (always action).action.type &&& MilterStage.connect.mask ≠ 0 := by
    rcases called with rfl | rfl
    · decide
    · decide
  apply withinLimit_aclTraced (by decide)
  exact withinLimit_bare ⟨rfl, rfl⟩ allowed (by decide) answer handled _ _ _

theorem twoTables_connect : (twoTables (always action)).tables "connect" =
    some ([] ++ always action :: [always (.plain .accept)]) := rfl

end TwoTables

/-- The rule `call t` is replaced by the rule of `t`, and so is `jump t`. -/
theorem reject_is_inlined :
    (∃ w, aclResult (twoTables (always (.call "t"))) MilterStage.connect.mask "connect" (plainWorld []) =
      .ok (.reject, w)) ∧
    Prog.SameResult Alike
      (aclResult (twoTables (always (.call "t"))) MilterStage.connect.mask "connect" (plainWorld []))
      (aclResult (withRules (twoTables (always (.call "t"))) "connect"
        [always (.plain .reject), always (.plain .accept)]) MilterStage.connect.mask "connect"
        (plainWorld [])) ∧
    Prog.SameResult Alike
      (aclResult (twoTables (always (.jump "t"))) MilterStage.connect.mask "connect" (plainWorld []))
      (aclResult (withRules (twoTables (always (.jump "t"))) "connect"
        [always (.plain .reject), always (.plain .continue), always (.plain .accept)])
        MilterStage.connect.mask "connect" (plainWorld [])) := by
  refine ⟨⟨_, rfl⟩, ?_, ?_⟩
  · exact (call_and_jump_are_inlining (twoTables_ignores _) twoTables_answers (twoTables_unread rfl)
      twoTables_connect ⟨rfl, rfl⟩ twoTables_plain "connect" _ (twoTables_within (.inl rfl) _)).1 rfl
      (by decide)
  · exact (call_and_jump_are_inlining (twoTables_ignores _) twoTables_answers (twoTables_unread rfl)
      twoTables_connect ⟨rfl, rfl⟩ twoTables_plain "connect" _ (twoTables_within (.inr rfl) _)).2 rfl
      (by decide) _ ⟨rfl, rfl⟩ rfl

end Mopher
