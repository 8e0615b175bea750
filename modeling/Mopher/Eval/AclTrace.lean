import Mopher.Eval.Acl
import Mopher.Milter.Session

/-!
# Nested tables

`acl` with a record of what it does: each invocation, each rule that it evaluates
and each return.  The depth is passed on as in the source, where an invocation that
is handed `MAX_RECURSION - 1` fails at once.

An invocation that fails makes the rule fail that has called it, so the record ends
with nothing but returns of `ACL_ERROR`.
-/

set_option autoImplicit false

namespace Mopher

inductive AclEvent where
  | enter (depth : Nat) (table : String)
  | rule (depth : Nat) (table : String) (number : Nat)
  | leave (depth : Nat) (response : AclActionType)
deriving DecidableEq

def AclEvent.depth : AclEvent → Nat
  | .enter depth _ => depth
  | .rule depth _ _ => depth
  | .leave depth _ => depth

structure AclTraced where
  events : List AclEvent
  result : Except Fault (AclActionType × World)

def maxRecursion : Nat := 256

section Model
variable (env : AclEnv)

/-- A part of a rule in which no table is entered. -/
def aclPart {α : Type} (p : AclM α) (w : World) : Except Fault (α × World) :=
  (Prog.run (aclStep env) p w).result

/-- The handler of an action. -/
def aclHandleTraced (nested : String → World → AclTraced) (stage : StageMask) (action : AclAction)
    (w : World) : AclTraced :=
  match action with
  | .plain type => ⟨[], .ok (type, w)⟩
  | .jump table =>
      { nested table w with
        result := (nested table w).result.map fun (response, w) =>
          (if response = .none then .continue else response, w) }
  | .call table => nested table w
  | .set exp => ⟨[], aclPart env (aclSet exp) w⟩
  | .log message level => ⟨[], aclPart env (aclLog env message level) w⟩
  | .tarpit delay => ⟨[], aclPart env (aclTarpit delay) w⟩
  | .external action => ⟨[], aclPart env (aclCommand (.external action stage)) w⟩

/-- The loop of `acl`. -/
def aclRulesTraced (nested : String → World → AclTraced) (stage : StageMask) (depth : Nat)
    (table : String) : Nat → List AclRule → World → AclTraced
  | _, [], w => ⟨[], .ok (.none, w)⟩
  | number, rule :: rest, w =>
      let this := AclEvent.rule depth table number
      let goOn (events : List AclEvent) (w : World) : AclTraced :=
        let others := aclRulesTraced nested stage depth table (number + 1) rest w
        ⟨this :: events ++ others.events, others.result⟩
      match aclPart env (liftExp (expIsTrue rule.expression)) w with
      | .error fault => ⟨[this], .error fault⟩
      | .ok (holds, w) =>
          if holds = 0 then goOn [] w
          else if holds = -1 then ⟨[this], .ok (.error, w)⟩
          else if actionStages rule.action.type &&& stage = 0 then ⟨[this], .ok (.error, w)⟩
          else
            let handled := aclHandleTraced env nested stage rule.action w
            match handled.result with
            | .error fault => ⟨this :: handled.events, .error fault⟩
            | .ok (.none, w) => goOn handled.events w
            | .ok (.return, w) => ⟨this :: handled.events, .ok (.none, w)⟩
            | .ok (.error, w) => ⟨this :: handled.events, .ok (.error, w)⟩
            | .ok (response, w) =>
                ⟨this :: handled.events, aclPart env (aclRespond env stage number rule response) w⟩

/-- The return of an invocation; a crash does not return. -/
def leaves (depth : Nat) : Except Fault (AclActionType × World) → List AclEvent
  | .error _ => []
  | .ok (response, _) => [.leave depth response]

/-- `acl` with the depth that it is handed. -/
def aclTraced (stage : StageMask) (depth : Nat) (table : String) (w : World) : AclTraced :=
  let body : AclTraced :=
    if depth + 1 < maxRecursion then
      match env.tables table with
      | none => ⟨[], .ok (.none, w)⟩
      | some rules => aclRulesTraced env (aclTraced stage (depth + 1)) stage depth table 1 rules w
    else ⟨[], .ok (.error, w)⟩
  ⟨.enter depth table :: body.events ++ leaves depth body.result, body.result⟩
termination_by maxRecursion - depth

/-- `milter_acl`; `update` are the callbacks of `acl_update`. -/
def milterAcl (update : StageMask → AclActionType → World → World) (stage : StageMask)
    (stagename : String) (w : World) : Except Fault (Milter.SfsiStat × World) :=
  match (aclTraced env stage 0 stagename w).result with
  | .error fault => .error fault
  | .ok (action, w) =>
      let w := { w with symbols := vtableSet w.symbols "action" (.int (Milter.AclActionType.code action)) }
      .ok (Milter.sfsistat action, update stage action w)

end Model

/-! ## The record belongs to the program -/

section Program
variable {env : AclEnv}

theorem aclHandleTraced_result {traced : String → World → AclTraced} {nested : String → AclM AclActionType}
    (same : ∀ table w, (traced table w).result = aclPart env (nested table) w) (stage : StageMask)
    (action : AclAction) (w : World) :
    (aclHandleTraced env traced stage action w).result =
      aclPart env (aclHandle env nested stage action) w := by
  cases action with
  | jump table =>
      simp only [aclHandleTraced, aclHandle, aclPart, Prog.result_bind, same]
      cases (Prog.run (aclStep env) (nested table) w).result with
      | error fault => rfl
      | ok answer => rfl
  | call table => exact same table w
  | plain type => rfl
  | set exp => rfl
  | log message level => rfl
  | tarpit delay => rfl
  | external action => rfl

theorem aclRulesTraced_result {traced : String → World → AclTraced} {nested : String → AclM AclActionType}
    (same : ∀ table w, (traced table w).result = aclPart env (nested table) w) (stage : StageMask)
    (depth : Nat) (table : String) (rules : List AclRule) : ∀ (number : Nat) (w : World),
    (aclRulesTraced env traced stage depth table number rules w).result =
      aclPart env (aclRules env nested stage number rules) w := by
  induction rules with
  | nil => intro number w; rfl
  | cons rule rest ih =>
      intro number w
      have handle := aclHandleTraced_result same stage rule.action
      simp only [aclPart] at ih handle
      simp only [aclRulesTraced, aclRules, aclPart, Prog.result_bind]
      cases (Prog.run (aclStep env) (liftExp (expIsTrue rule.expression)) w).result with
      | error fault => rfl
      | ok answer =>
          obtain ⟨holds, w⟩ := answer
          dsimp only [Except.bind]
          split_ifs
          · exact ih (number + 1) w
          · rfl
          · rfl
          · simp only [handle, Prog.result_bind]
            cases (Prog.run (aclStep env) (aclHandle env nested stage rule.action) w).result with
            | error fault => rfl
            | ok answer =>
                obtain ⟨response, w⟩ := answer
                cases response with
                | none => exact ih (number + 1) w
                | _ => rfl

theorem below_limit_iff {depth left : Nat} (sum : depth + left = aclDepth) :
    depth + 1 < maxRecursion ↔ 0 < left := by
  simp only [aclDepth, maxRecursion] at sum ⊢
  omega

/-- The depth that is handed down and the depth that is left add up. -/
theorem aclTraced_result (stage : StageMask) (left : Nat) : ∀ (depth : Nat) (table : String) (w : World),
    depth + left = aclDepth →
    (aclTraced env stage depth table w).result = aclPart env (acl env stage left table) w := by
  induction left with
  | zero =>
      intro depth table w sum
      have limit := (below_limit_iff sum).not.mpr (Nat.lt_irrefl 0)
      rw [aclTraced]
      simp only [if_neg limit]
      rfl
  | succ left ih =>
      intro depth table w sum
      have below := (below_limit_iff sum).mpr (Nat.succ_pos left)
      rw [aclTraced, acl]
      simp only [if_pos below]
      cases env.tables table with
      | none => rfl
      | some rules =>
          refine aclRulesTraced_result (fun table w => ?_) stage depth table rules 1 w
          exact ih (depth + 1) table w (by omega)

end Program

/-! ## Errors -/

/-- No invocation returns `ACL_ERROR`. -/
def Calm (events : List AclEvent) : Prop := ∀ depth, AclEvent.leave depth .error ∉ events

/-- The depth is bounded, and as soon as one invocation returns `ACL_ERROR` the others
do so, too. -/
structure Contained (log : AclTraced) : Prop where
  depth : ∀ event ∈ log.events, event.depth < maxRecursion
  final : Calm log.events ∨ ∃ (front : List AclEvent) (depths : List Nat) (w : World), Calm front ∧
    log.events = front ++ depths.map (fun depth => AclEvent.leave depth .error) ∧
    log.result = .ok (.error, w)

theorem Contained.calm {log : AclTraced} (contained : Contained log)
    (fine : ∀ w, log.result ≠ .ok (.error, w)) : Calm log.events := by
  rcases contained.final with calm | ⟨_, _, w, _, _, failed⟩
  · exact calm
  · exact (fine w failed).elim

theorem contained_nil (result : Except Fault (AclActionType × World)) : Contained ⟨[], result⟩ :=
  ⟨by simp, .inl (by simp [Calm])⟩

/-- A rule whose action failed, or did not fail, and that ends the table. -/
theorem Contained.stop {handled : AclTraced} (contained : Contained handled)
    {result : Except Fault (AclActionType × World)}
    (failed : ∀ w, handled.result = .ok (.error, w) → result = .ok (.error, w)) {depth : Nat}
    (below : depth < maxRecursion) (table : String) (number : Nat) :
    Contained ⟨.rule depth table number :: handled.events, result⟩ := by
  refine ⟨List.forall_mem_cons.mpr ⟨below, contained.depth⟩, ?_⟩
  rcases contained.final with calm | ⟨front, depths, w, calm, events, error⟩
  · left
    simpa [Calm] using calm
  · right
    refine ⟨.rule depth table number :: front, depths, w, ?_, ?_, failed w error⟩
    · simpa [Calm] using calm
    · simp only [events, List.cons_append]

/-- A rule after which the next one is evaluated. -/
theorem Contained.goOn {handled others : AclTraced} (first : Contained handled)
    (fine : ∀ w, handled.result ≠ .ok (.error, w)) (rest : Contained others) {depth : Nat}
    (below : depth < maxRecursion) (table : String) (number : Nat) :
    Contained ⟨.rule depth table number :: handled.events ++ others.events, others.result⟩ := by
  have calm := first.calm fine
  constructor
  · intro event member
    rcases List.mem_append.mp member with early | late
    · rcases List.mem_cons.mp early with rfl | nested
      · exact below
      · exact first.depth event nested
    · exact rest.depth event late
  · rcases rest.final with calm' | ⟨front, depths, w, calm', events, error⟩
    · left
      intro d member
      rcases List.mem_append.mp member with early | late
      · exact calm d (by simpa using early)
      · exact calm' d late
    · right
      refine ⟨.rule depth table number :: handled.events ++ front, depths, w, ?_, ?_, error⟩
      · intro d member
        rcases List.mem_append.mp member with early | late
        · exact calm d (by simpa using early)
        · exact calm' d late
      · simp only [events, List.append_assoc]

theorem aclHandleTraced_contained (env : AclEnv) {nested : String → World → AclTraced}
    (contained : ∀ table w, Contained (nested table w)) (stage : StageMask) (action : AclAction)
    (w : World) : Contained (aclHandleTraced env nested stage action w) := by
  cases action with
  | jump table =>
      refine ⟨(contained table w).depth, ?_⟩
      rcases (contained table w).final with calm | ⟨front, depths, w', calm, events, error⟩
      · exact .inl calm
      · refine .inr ⟨front, depths, w', calm, events, ?_⟩
        simp only [aclHandleTraced, error]
        rfl
  | call table => exact contained table w
  | plain type => exact contained_nil _
  | set exp => exact contained_nil _
  | log message level => exact contained_nil _
  | tarpit delay => exact contained_nil _
  | external action => exact contained_nil _

theorem aclRulesTraced_contained (env : AclEnv) {nested : String → World → AclTraced}
    (contained : ∀ table w, Contained (nested table w)) (stage : StageMask) {depth : Nat}
    (below : depth < maxRecursion) (table : String) (rules : List AclRule) : ∀ (number : Nat) (w : World),
    Contained (aclRulesTraced env nested stage depth table number rules w) := by
  induction rules with
  | nil => intro number w; exact contained_nil _
  | cons rule rest ih =>
      intro number w
      -- a rule that enters no table is one with an empty record of its action
      have alone (result : Except Fault (AclActionType × World)) :
          Contained ⟨[.rule depth table number], result⟩ :=
        (contained_nil (.ok (.none, w))).stop (by simp) below table number
      simp only [aclRulesTraced]
      split
      · exact alone _
      · rename_i holds w' evaluated
        split_ifs
        · exact (contained_nil (.ok (.none, w'))).goOn (by simp) (ih (number + 1) w') below table number
        · exact alone _
        · exact alone _
        · have handled := aclHandleTraced_contained env contained stage rule.action w'
          split
          · rename_i fault answer
            exact handled.stop (by simp [answer]) below table number
          · rename_i w'' answer
            exact handled.goOn (by simp [answer]) (ih (number + 1) w'') below table number
          · rename_i w'' answer
            exact handled.stop (by simp [answer]) below table number
          · rename_i w'' answer
            exact handled.stop (by simp [answer]) below table number
          · rename_i response w'' notNone notReturn notError answer
            refine handled.stop ?_ below table number
            intro v error
            rw [answer] at error
            cases error
            exact (notError rfl).elim

/-- An invocation returns what its body comes to. -/
theorem Contained.invocation {body : AclTraced} (contained : Contained body) {depth : Nat}
    (below : depth < maxRecursion) (table : String) :
    Contained ⟨.enter depth table :: body.events ++ leaves depth body.result, body.result⟩ := by
  obtain ⟨bounded, final⟩ := contained
  constructor
  · intro event member
    rcases List.mem_append.mp member with early | late
    · rcases List.mem_cons.mp early with rfl | inside
      · exact below
      · exact bounded event inside
    · unfold leaves at late
      split at late
      · cases late
      · cases List.mem_singleton.mp late
        exact below
  · have front (calm : Calm body.events) : Calm (.enter depth table :: body.events) := by
      simpa [Calm] using calm
    rcases final with calm | ⟨before, depths, w, calm, events, error⟩
    · cases result : body.result with
      | error fault =>
          left
          simpa [leaves] using front calm
      | ok answer =>
          obtain ⟨response, w⟩ := answer
          by_cases failed : response = .error
          · subst failed
            exact .inr ⟨.enter depth table :: body.events, [depth], w, front calm, rfl, rfl⟩
          · left
            intro d member
            rcases List.mem_append.mp member with early | late
            · exact front calm d early
            · cases List.mem_singleton.mp late
              exact failed rfl
    · refine .inr ⟨.enter depth table :: before, depths ++ [depth], w, ?_, ?_, error⟩
      · simpa [Calm] using calm
      · simp only [error, leaves, events, List.map_append, List.map_cons, List.map_nil, List.cons_append,
          List.append_assoc]

/-- By induction on the depth that is left. -/
theorem aclTraced_contained (env : AclEnv) (stage : StageMask) (left : Nat) : ∀ (depth : Nat) (table : String) (w : World),
    depth + left = aclDepth → Contained (aclTraced env stage depth table w) := by
  induction left with
  | zero =>
      intro depth table w sum
      have limit := (below_limit_iff sum).not.mpr (Nat.lt_irrefl 0)
      rw [aclTraced]
      simp only [if_neg limit]
      refine (contained_nil (.ok (.error, w))).invocation ?_ table
      simp only [aclDepth, maxRecursion] at sum ⊢
      omega
  | succ left ih =>
      intro depth table w sum
      have below := (below_limit_iff sum).mpr (Nat.succ_pos left)
      rw [aclTraced]
      simp only [if_pos below]
      refine Contained.invocation ?_ (by omega) table
      cases env.tables table with
      | none => exact contained_nil _
      | some rules =>
          refine aclRulesTraced_contained env (fun table w => ?_) stage (by omega) table rules 1 w
          exact ih (depth + 1) table w (by omega)

/-- After the first return of `ACL_ERROR` there are only such returns. -/
theorem Contained.after_error {log : AclTraced} (contained : Contained log) {front back : List AclEvent}
    {depth : Nat} (events : log.events = front ++ .leave depth .error :: back) :
    (∀ event ∈ back, ∃ d, event = .leave d .error) ∧ ∃ w, log.result = .ok (.error, w) := by
  rcases contained.final with calm | ⟨before, depths, w, calm, events', error⟩
  · exact (calm depth (by rw [events]; simp)).elim
  · refine ⟨?_, w, error⟩
    have leave (event : AclEvent) (member : event ∈ depths.map fun d => AclEvent.leave d .error) :
        ∃ d, event = .leave d .error := by
      obtain ⟨d, _, rfl⟩ := List.mem_map.mp member
      exact ⟨d, rfl⟩
    rw [events'] at events
    intro event member
    rcases List.append_eq_append_iff.mp events with ⟨gap, _, tail⟩ | ⟨gap, inside, tail⟩
    · exact leave event (by rw [tail]; simp [member])
    · cases gap with
      | nil => exact leave event (by rw [← List.nil_append (depths.map _), ← tail]; simp [member])
      | cons first gap =>
          obtain ⟨rfl, _⟩ := List.cons.inj tail
          exact (calm depth (by rw [inside]; simp)).elim

/-- The recursion of `acl` is bounded and no error is swallowed.  What the record says
is what the program does.  Every invocation is handed a depth below `MAX_RECURSION`;
and once an invocation has returned `ACL_ERROR`, no rule is evaluated any more, the
outermost one returns `ACL_ERROR` and `milter_acl` answers with a temporary failure. -/
theorem recursion_bounded_and_errors_final (env : AclEnv)
    (update : StageMask → AclActionType → World → World) (stage : StageMask) (stagename : String)
    (w : World) :
    (aclTraced env stage 0 stagename w).result =
        (Prog.run (aclStep env) (acl env stage aclDepth stagename) w).result ∧
      (∀ event ∈ (aclTraced env stage 0 stagename w).events, event.depth < maxRecursion) ∧
      ∀ front depth back,
        (aclTraced env stage 0 stagename w).events = front ++ .leave depth .error :: back →
        (∀ d table number, AclEvent.rule d table number ∉ back) ∧
          (∃ w', (aclTraced env stage 0 stagename w).result = .ok (.error, w')) ∧
          (milterAcl env update stage stagename w).map Prod.fst = .ok .tempfail := by
  have contained := aclTraced_contained env stage aclDepth 0 stagename w (by simp)
  refine ⟨aclTraced_result stage aclDepth 0 stagename w (by simp), contained.depth, ?_⟩
  intro front depth back events
  obtain ⟨later, w', error⟩ := contained.after_error events
  refine ⟨?_, ⟨w', error⟩, ?_⟩
  · intro d table number member
    obtain ⟨_, same⟩ := later _ member
    cases same
  · simp only [milterAcl, error]
    rfl

end Mopher
