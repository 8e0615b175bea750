import Mopher.Eval.Congruence

/-!
# Evaluation does not change what it reads

An expression without assignments should leave the mailspec and the constants as
they are, but for symbols that callbacks compute, so that every expression gives
what it would have given before.  It does exactly when it changes no stored
variable in place.

Two mailspecs in which the symbols have their ideal values answer alike,
whichever of the symbols were computed already.  And a variable that was changed
in place has lost something by the end of the evaluation.
-/

set_option autoImplicit false

namespace Mopher

/-! ## Mailspecs with ideal symbols -/

/-- The first mailspec with every symbol computed. -/
def idealWorld (start : World) (ideal : String → Option Value) : World :=
  { start with symbols := ideal }

section Pristine
variable {env : Env} {ideal : String → Option Value} {start : World}

theorem Pristine.sameReads {w : World} (pristine : Pristine env ideal start w) :
    SameReads (Known env w) w (idealWorld start ideal) := by
  intro root handed
  cases root with
  | symbol name =>
      obtain ⟨v, bound⟩ := Option.isSome_iff_exists.mp handed.1
      simp only [World.read, idealWorld, bound, pristine.settled.bound name v bound]
  | «variable» name => simp only [World.read, idealWorld, pristine.unchanged.vars]
  | constant id => simp only [World.read, idealWorld, pristine.unchanged.constants]
  | registered name => simp only [World.read, idealWorld, pristine.unchanged.registered]

theorem Pristine.mailspecStage {w : World} (pristine : Pristine env ideal start w) :
    mailspecStage w = mailspecStage start :=
  mailspecStage_congr pristine.stage

theorem Pristine.refl (settled : Settled env ideal start) : Pristine env ideal start start :=
  ⟨.start, .refl start, settled, rfl⟩

/-- A command that writes nothing in place leaves the mailspec pristine. -/
theorem pristine_step (coherent : Coherent env ideal start) {c : Command} {w w' : World}
    {r : c.Response} (pristine : Pristine env ideal start w) (plain : Allowed Exp.notAssign c)
    (harmless : ¬ Harmful c w) (returned : step env c w = .ok (r, w')) :
    Pristine env ideal start w' := by
  have arises : Arises env start w' := .step pristine.arises returned
  rcases step_effect returned with ⟨name, _, rfl⟩ | ⟨name, o, rfl⟩ | ⟨⟨seed, rfl⟩, _⟩ | ⟨root, new, wears, _⟩
  · exact
      { arises := arises
        unchanged := pristine.unchanged.trans
          (symbolGet_unchanged coherent.toOnlyAdds pristine.arises name)
        settled := (symbolGet_answer coherent pristine name).2
        stage := (symbolGet_stage coherent.toOnlyAdds pristine.arises name).trans pristine.stage }
  · exact (not_allowed_assign name o plain).elim
  · exact
      { arises := arises
        unchanged := pristine.unchanged.trans (SameStore.unchanged ⟨seed, rfl⟩)
        settled := ⟨pristine.settled.bound, pristine.settled.unset⟩
        stage := pristine.stage }
  · exact (harmless wears.harmful).elim

/-- What a command answers in a pristine mailspec. -/
def idealAnswer (env : Env) (ideal : String → Option Value) (start : World) (c : Command) :
    Except Fault c.Response :=
  match c with
  | .symbol name => .ok (symbolAnswer env ideal (mailspecStage start) name)
  | .stage => .ok (mailspecStage start)
  | c => (step env c (idealWorld start ideal)).map Prod.fst

theorem pristine_answer (coherent : Coherent env ideal start) {c : Command} {w : World}
    (pristine : Pristine env ideal start w) (handed : c.Scoped (Known env w))
    (plain : Allowed Exp.notAssign c) (unasked : Allowed Exp.repeatable c) :
    (step env c w).map Prod.fst = idealAnswer env ideal start c := by
  have same := pristine.sameReads
  cases c with
  | symbol name =>
      have answer := (symbolGet_answer coherent pristine name).1
      rw [pristine.mailspecStage] at answer
      exact congrArg Except.ok answer
  | stage => exact congrArg Except.ok pristine.mailspecStage
  | var name =>
      simp only [step, idealAnswer, aclVariableGet, idealWorld, pristine.unchanged.vars]
      rfl
  | truth o =>
      simp only [step, idealAnswer, value_congr same o handed]
      rfl
  | value o =>
      simp only [step, idealAnswer, value_congr same o handed]
      rfl
  | operation op left right => exact operation_congr same _ _ op handed.1 handed.2
  | function f args =>
      have drawn : f ≠ .random := by
        rintro rfl
        obtain ⟨args, impossible⟩ := unasked
        cases impossible
      exact function_congr same _ drawn handed
  | visit e => rfl
  | getsymval name => rfl
  | isSet name => cases unasked
  | assign name o => exact (not_allowed_assign name o plain).elim

/-- Two pristine mailspecs answer alike and stay pristine. -/
theorem pristine_matches (coherent : Coherent env ideal start) {c : Command} {v w : World}
    (first : Pristine env ideal start v) (second : Pristine env ideal start w)
    (handed : c.Scoped (Known env v)) (handed' : c.Scoped (Known env w))
    (plain : Allowed Exp.notAssign c) (unasked : Allowed Exp.repeatable c) (harmless : ¬ Harmful c v) :
    Prog.Matches (step env) (fun v w => Pristine env ideal start v ∧ Pristine env ideal start w)
      c v w := by
  have answer := pristine_answer coherent first handed plain unasked
  rw [← pristine_answer coherent second handed' plain unasked] at answer
  have harmless' : ¬ Harmful c w := fun harmful =>
    harmless (harmful_congr (fun root known => (first.sameReads root known).symm) handed
      (harmful_congr second.sameReads handed' harmful))
  unfold Prog.Matches
  cases left : step env c v with
  | error f =>
      rw [left] at answer
      cases right : step env c w with
      | error g => rw [right] at answer; cases answer; rfl
      | ok s => rw [right] at answer; cases answer
  | ok r =>
      rw [left] at answer
      cases right : step env c w with
      | error g => rw [right] at answer; cases answer
      | ok s =>
          rw [right] at answer
          obtain ⟨r, v'⟩ := r
          obtain ⟨s, w'⟩ := s
          cases answer
          exact ⟨rfl, pristine_step coherent first plain harmless left,
            pristine_step coherent second plain harmless' right⟩

/-! ## Values of expressions -/

/-- `exp_eval`, and a look at the variable that it returns. -/
def valueOf (e : Exp) : EvalM (Option Value) := do
  match ← expEval e with
  | none => return none
  | some o =>
      let value : Value ← command (.value o)
      return some value

def evalValue (env : Env) (e : Exp) (w : World) : Except Fault (Option Value) :=
  (Prog.run (step env) (valueOf e) w).result.map Prod.fst

/-- No `/` that the evaluation reaches clears a bit of a stored address, and no
`lower` changes a letter of a stored string. -/
def Harmless (env : Env) (e : Exp) (w : World) : Prop :=
  ∀ c v, (c, v) ∈ (Prog.run (step env) (expEval e) w).trace → ¬ Harmful c v

theorem valueOf_fine (adds : OnlyAdds env start) (e : Exp) (w : World) :
    Fine env start w (valueOf e) fun _ _ => True := by
  refine fine_bind (expEval_returns adds e w) fun o w₁ _ handed => ?_
  cases o with
  | none => exact fine_pure trivial
  | some o =>
      exact fine_bind (fine_command adds (handed o rfl) fun _ _ _ => trivial)
        fun _ _ _ _ => fine_pure trivial

theorem valueOf_issues {p : Exp → Bool} {e : Exp} (all : e.all p = true) :
    Prog.Issues (Allowed p) (valueOf e) := by
  refine Prog.issues_bind (expEval_issues e all) fun o => ?_
  cases o with
  | none => exact Prog.issues_pure _ _
  | some o => exact Prog.issues_bind (Prog.issues_issue trivial) fun _ => Prog.issues_pure _ _

/-- Looking at the result is harmless. -/
theorem Harmless.valueOf {e : Exp} {w : World} (harmless : Harmless env e w) {c : Command} {v : World}
    (member : (c, v) ∈ (Prog.run (step env) (valueOf e) w).trace) : ¬ Harmful c v := by
  unfold Mopher.valueOf at member
  cases evaluated : (Prog.run (step env) (expEval e) w).result with
  | error f =>
      rw [Prog.run_bind_error _ evaluated] at member
      exact harmless c v member
  | ok ow =>
      rw [Prog.run_bind_ok _ evaluated] at member
      rcases List.mem_append.mp member with early | late
      · exact harmless c v early
      · have looks : Prog.Issues (fun c => ∀ v, ¬ Harmful c v)
            (match ow.1 with
              | none => Pure.pure none
              | some o => do
                  let value : Value ← command (.value o)
                  Pure.pure (some value) : EvalM (Option Value)) := by
          cases ow.1 with
          | none => exact Prog.issues_pure _ _
          | some o => exact Prog.issues_bind (Prog.issues_issue fun _ => id) fun _ => Prog.issues_pure _ _
        exact looks.trace _ _ _ _ late v

/-- An expression has one value in all pristine mailspecs. -/
theorem evalValue_pristine (coherent : Coherent env ideal start) {v w : World} {e : Exp}
    (first : Pristine env ideal start v) (second : Pristine env ideal start w)
    (plain : e.all Exp.notAssign = true) (unasked : e.all Exp.repeatable = true)
    (harmless : Harmless env e v) : evalValue env e w = evalValue env e v := by
  have here := (valueOf_fine coherent.toOnlyAdds e v first.arises).1
  have there := (valueOf_fine coherent.toOnlyAdds e w second.arises).1
  have same : Prog.SameResult (fun v w => Pristine env ideal start v ∧ Pristine env ideal start w)
      (Prog.run (step env) (valueOf e) v).result (Prog.run (step env) (valueOf e) w).result := by
    refine Prog.run_related (valueOf e) ⟨first, second⟩ fun c v' w' member member' pristine => ?_
    exact pristine_matches coherent pristine.1 pristine.2 (here c v' member).2 (there c w' member').2
      ((valueOf_issues plain).trace _ _ _ _ member) ((valueOf_issues unasked).trace _ _ _ _ member)
      (harmless.valueOf member)
  exact same.map_fst.symm

end Pristine

/-! ## Variables that were changed in place -/

section Spoiled
variable (env : Env) (ideal : String → Option Value) (start : World)

/-- Some variable lost something.  If it is a symbol, it could be read at the
beginning. -/
def Spoiled (w : World) : Prop :=
  ∃ root : Root, root.Scoped (fun name => (w.symbols name).isSome = true ∧ Available env start name) ∧
    wear (w.read root) < wear ((idealWorld start ideal).read root)

end Spoiled

section Spoiling
variable {env : Env} {ideal : String → Option Value} {start : World}

/-- Writing in place spoils a pristine mailspec. -/
theorem pristine_spoiled {c : Command} {w w' : World} {r : c.Response}
    (pristine : Pristine env ideal start w) (handed : c.Scoped (Known env w))
    (plain : Allowed Exp.notAssign c) (harmful : Harmful c w) (returned : step env c w = .ok (r, w')) :
    Spoiled env ideal start w' := by
  rcases step_effect returned with ⟨name, rfl, _⟩ | ⟨name, o, rfl⟩ | ⟨_, harmless⟩ | ⟨root, new, wears, rfl⟩
  · exact harmful.elim
  · exact (not_allowed_assign name o plain).elim
  · exact (harmless harmful).elim
  · have known := wears.handed _ handed
    refine ⟨root, ?_, ?_⟩
    · refine Root.Scoped.mono ?_ root known
      rintro name ⟨bound, available⟩
      refine ⟨isSome_write bound, ?_⟩
      unfold Available at available ⊢
      rw [← pristine.mailspecStage]
      exact available
    · rw [read_write_same, ← pristine.sameReads root known]
      exact wears.lost

/-- What was lost stays lost. -/
theorem spoiled_step (adds : OnlyAdds env start) {c : Command} {w w' : World} {r : c.Response}
    (arises : Arises env start w) (plain : Allowed Exp.notAssign c)
    (returned : step env c w = .ok (r, w')) (spoiled : Spoiled env ideal start w) :
    Spoiled env ideal start w' := by
  obtain ⟨root, known, lost⟩ := spoiled
  rcases step_effect returned with ⟨name, _, rfl⟩ | ⟨name, o, rfl⟩ | ⟨⟨seed, rfl⟩, _⟩ | ⟨written, new, wears, rfl⟩
  · have unchanged := symbolGet_unchanged adds arises name
    refine ⟨root, Root.Scoped.mono (fun _ here => ⟨unchanged.isSome here.1, here.2⟩) root known, ?_⟩
    rw [unchanged.read (Root.Scoped.mono (fun _ here => here.1) root known)]
    exact lost
  · exact (not_allowed_assign name o plain).elim
  · exact ⟨root, known, lost⟩
  · refine ⟨root, Root.Scoped.mono (fun _ here => ⟨isSome_write here.1, here.2⟩) root known, ?_⟩
    by_cases same : root = written
    · subst same
      rw [read_write_same]
      exact wears.lost.trans lost
    · rw [read_write_other _ _ same]
      exact lost

end Spoiling

/-! ## What an evaluation leaves behind -/

/-- After an evaluation that made `w'` of `w`, nothing tells that it took place:
every variable that was there has its value, expressions have the values they
would have had, and so do the expressions of later messages, whose mailspecs are
new but whose constants are the same variables.  (`isset` and `random` are not
`repeatable`, and an expression that writes in place may change what symbols are
computed from; these are not asked for.) -/
structure LeavesNoTrace (env : Env) (w w' : World) : Prop where
  unchanged : Unchanged w w'
  again : ∀ e : Exp, e.all Exp.notAssign = true → e.all Exp.repeatable = true → Harmless env e w →
    evalValue env e w' = evalValue env e w
  later : ∀ (u : World) (e : Exp),
    evalValue env e { u with constants := w'.constants, registered := w'.registered } =
      evalValue env e { u with constants := w.constants, registered := w.registered }

section Traces
variable {env : Env} {ideal : String → Option Value} {start : World}

theorem Pristine.leavesNoTrace (coherent : Coherent env ideal start)
    (settled : Settled env ideal start) {w : World} (pristine : Pristine env ideal start w) :
    LeavesNoTrace env start w where
  unchanged := pristine.unchanged
  again _ plain unasked harmless :=
    evalValue_pristine coherent (.refl settled) pristine plain unasked harmless
  later u e := by rw [pristine.unchanged.constants, pristine.unchanged.registered]

theorem evalValue_symbol (env : Env) (name : String) (w : World) :
    evalValue env (.symbol name) w =
      .ok ((aclSymbolGet worldOps env.registry w name).2.map
        (Obj.value (aclSymbolGet worldOps env.registry w name).1)) := by
  have evaluated : (Prog.run (step env) (expEval (.symbol name)) w).result =
      .ok ((aclSymbolGet worldOps env.registry w name).2,
        (aclSymbolGet worldOps env.registry w name).1) := by
    simp only [expEval, entered, symbolGet, command, Prog.run_bind, Prog.run_issue]
    rfl
  unfold evalValue valueOf
  rw [Prog.run_bind_ok _ evaluated]
  cases (aclSymbolGet worldOps env.registry w name).2 with
  | none => rfl
  | some o => rfl

theorem harmless_symbol (env : Env) (name : String) (w : World) : Harmless env (.symbol name) w := by
  have looks : Prog.Issues (fun c => ∀ v, ¬ Harmful c v) (expEval (.symbol name)) := by
    unfold expEval
    exact Prog.issues_bind (Prog.issues_issue fun _ => id) fun _ => Prog.issues_issue fun _ => id
  exact fun c v member => looks.trace _ _ _ _ member v

/-- A symbol that can be computed has its ideal value. -/
theorem evalValue_ideal (coherent : Coherent env ideal start) (settled : Settled env ideal start)
    {name : String} (available : Available env start name) :
    evalValue env (.symbol name) start = .ok (ideal name) := by
  have pristine : Pristine env ideal start start := .refl settled
  obtain ⟨answer, settled'⟩ := symbolGet_answer coherent pristine name
  rw [symbolAnswer_available available] at answer
  have known := symbolGet_scoped coherent.toOnlyAdds pristine.arises name
  rw [evalValue_symbol, answer]
  rw [answer] at known
  cases value : ideal name with
  | none => rfl
  | some v =>
      obtain ⟨isSome, _⟩ := known (.stored (.symbol name)) (by rw [value]; rfl)
      obtain ⟨u, bound⟩ := Option.isSome_iff_exists.mp isSome
      have same := settled'.bound name u bound
      rw [value] at same
      cases same
      simp [Obj.value, World.read, bound]

/-- A symbol that is there keeps its value when it is looked up. -/
theorem evalValue_bound (adds : OnlyAdds env start) {w : World} (arises : Arises env start w)
    {name : String} {v : Value} (available : Available env start name) (bound : w.symbols name = some v) :
    evalValue env (.symbol name) w = .ok none ∨ evalValue env (.symbol name) w = .ok (some v) := by
  have unchanged := symbolGet_unchanged adds arises name
  rw [evalValue_symbol]
  cases answer : (aclSymbolGet worldOps env.registry w name).2 with
  | none => exact .inl rfl
  | some o =>
      have points : o = .stored (.symbol name) := by
        generalize aclSymbolGet worldOps env.registry w name = result,
          symbolGet_result env w name = how at answer
        cases how with
        | unavailable _ _ => cases answer
        | constant entry _ _ =>
            obtain ⟨_, _, _, _, entry', _⟩ := available
            rw [entry] at entry'
            cases entry'
        | cached _ _ => cases answer; rfl
        | unset _ _ _ => cases answer; rfl
        | computed _ _ =>
            simp only [] at answer
            split at answer
            · obtain ⟨u, _, same⟩ := Option.map_eq_some_iff.mp answer
              exact same.symm
            · cases answer
      right
      subst points
      simp [Obj.value, World.read, unchanged.symbols name v bound]

/-- Something that was lost can be seen. -/
theorem Spoiled.leavesTrace (coherent : Coherent env ideal start) (settled : Settled env ideal start)
    {w : World} (arises : Arises env start w) (spoiled : Spoiled env ideal start w) :
    ¬ LeavesNoTrace env start w := by
  intro clean
  obtain ⟨root, known, lost⟩ := spoiled
  cases root with
  | «variable» name =>
      simp only [World.read, idealWorld, clean.unchanged.vars] at lost
      exact lt_irrefl _ lost
  | constant id =>
      simp only [World.read, idealWorld, clean.unchanged.constants] at lost
      exact lt_irrefl _ lost
  | registered name =>
      simp only [World.read, idealWorld, clean.unchanged.registered] at lost
      exact lt_irrefl _ lost
  | symbol name =>
      -- the symbol may have been computed by the evaluation itself, so it is asked for again
      obtain ⟨isSome, available⟩ := known
      obtain ⟨v, bound⟩ := Option.isSome_iff_exists.mp isSome
      have again := clean.again (.symbol name) rfl rfl (harmless_symbol env name start)
      rw [evalValue_ideal coherent settled available] at again
      simp only [World.read, idealWorld, bound] at lost
      rcases evalValue_bound coherent.toOnlyAdds arises available bound with gone | here
      · rw [gone] at again
        cases value : ideal name with
        | none =>
            rw [value] at lost
            exact absurd lost (Nat.not_lt_zero _)
        | some u => rw [value] at again; cases again
      · rw [here] at again
        have same : some v = ideal name := Except.ok.inj again
        rw [← same] at lost
        exact lt_irrefl _ lost

end Traces

/-- `tarpit_delay`, the callback of the symbol `tarpit_delayed`. -/
def tarpitDelay (_ : StageMask) (_ : String) (w : World) : World × Bool :=
  ({ w with symbols := vtableSet w.symbols "tarpit_delayed" (.int 0) }, true)

/-- A system with this one symbol. -/
def tarpitEnv : Env where
  libc := plainLibc
  stack := 0
  registry name :=
    if name = "tarpit_delayed" then some (.symbol msAny (some tarpitDelay) false) else none
  registered name _ _ found := by
    by_cases same : name = "tarpit_delayed"
    · rw [if_pos same] at found
      cases found
    · rw [if_neg same] at found
      cases found
  getsymval _ := none

/-- A mailspec at the connect stage. -/
def tarpitWorld : World :=
  { plainWorld [.string (cstr "Delay ")] with
    symbols := vtableSet (fun _ => none) "stage" (.int MilterStage.connect.mask) }

def tarpitIdeal : String → Option Value := vtableSet tarpitWorld.symbols "tarpit_delayed" (.int 0)

theorem tarpit_callable {w : World} {name : String} {stage : StageMask}
    {callback : StageMask → String → World → World × Bool}
    (callable : Callable tarpitEnv w name stage callback) :
    name = "tarpit_delayed" ∧ callback = tarpitDelay ∧ w.symbols name = none := by
  obtain ⟨stages, noCache, entry, _, _, unbound⟩ := callable
  simp only [tarpitEnv] at entry
  by_cases same : name = "tarpit_delayed"
  · rw [if_pos same] at entry
    cases entry
    exact ⟨same, rfl, unbound rfl⟩
  · rw [if_neg same] at entry
    cases entry

theorem tarpit_settled_of_bound {w : World}
    (bound : ∀ name v, w.symbols name = some v → tarpitIdeal name = some v) :
    Settled tarpitEnv tarpitIdeal w where
  bound := bound
  unset name stages noCache entry _ := by
    simp only [tarpitEnv] at entry
    split at entry <;> cases entry

theorem tarpit_coherent : Coherent tarpitEnv tarpitIdeal tarpitWorld where
  adds w name stage callback _ callable := by
    obtain ⟨rfl, rfl, unbound⟩ := tarpit_callable callable
    refine ⟨fun other v bound => ?_, rfl, rfl, rfl⟩
    have distinct : other ≠ "tarpit_delayed" := by
      rintro rfl
      rw [unbound] at bound
      cases bound
    rw [← bound]
    exact vtableSet_other _ _ _ _ distinct
  cached name stages noCache entry := by
    simp only [tarpitEnv] at entry
    split at entry <;> cases entry
  settles w name stage callback pristine callable := by
    obtain ⟨rfl, rfl, _⟩ := tarpit_callable callable
    refine tarpit_settled_of_bound fun other v bound => ?_
    by_cases same : other = "tarpit_delayed"
    · subst same
      rw [← bound]
      simp [tarpitDelay, tarpitIdeal]
    · apply pristine.settled.bound
      rw [← bound]
      exact (vtableSet_other _ _ _ _ same).symm
  succeeds w name stage callback pristine callable := by
    obtain ⟨rfl, rfl, _⟩ := tarpit_callable callable
    simp [tarpitDelay, tarpitIdeal]
  sets w name stage callback pristine callable _ := by
    obtain ⟨rfl, rfl, _⟩ := tarpit_callable callable
    simp [tarpitDelay]

theorem tarpit_settled : Settled tarpitEnv tarpitIdeal tarpitWorld := by
  refine tarpit_settled_of_bound fun name v bound => ?_
  have distinct : name ≠ "tarpit_delayed" := by
    rintro rfl
    simp [tarpitWorld, vtableSet] at bound
  rw [← bound]
  exact vtableSet_other _ _ _ _ distinct

end Mopher
