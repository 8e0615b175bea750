import Mopher.Eval.Callback

/-!
# Pointers stay valid

A pointer to a symbol is handed out for a symbol that is in the mailspec and
available at its stage.  No command takes a symbol away or changes the stage, so
every operand of every command of a run points to such symbols.
-/

set_option autoImplicit false

namespace Mopher

/-- The symbol is there, and it can be read. -/
def Known (env : Env) (w : World) (name : String) : Prop :=
  (w.symbols name).isSome = true ∧ Available env w name

/-- What was known stays known. -/
def Later (env : Env) (w w' : World) : Prop := ∀ name, Known env w name → Known env w' name

theorem Later.refl (env : Env) (w : World) : Later env w w := fun _ known => known

theorem Later.trans {env : Env} {u v w : World} (first : Later env u v) (second : Later env v w) :
    Later env u w :=
  fun name known => second name (first name known)

theorem Root.Scoped.mono {known known' : String → Prop} (weaker : ∀ name, known name → known' name) :
    ∀ root : Root, root.Scoped known → root.Scoped known'
  | .symbol name, handed => weaker name handed
  | .variable _, _ => trivial
  | .constant _, _ => trivial
  | .registered _, _ => trivial

mutual

theorem Obj.Scoped.mono {known known' : String → Prop} (weaker : ∀ name, known name → known' name) :
    ∀ o : Obj, o.Scoped known → o.Scoped known'
  | .stored root, handed => Root.Scoped.mono weaker root handed
  | .temp _, _ => trivial
  | .list items, handed => Obj.AllScoped.mono weaker items handed

theorem Obj.AllScoped.mono {known known' : String → Prop}
    (weaker : ∀ name, known name → known' name) :
    ∀ items : List (Option Obj), Obj.AllScoped known items → Obj.AllScoped known' items
  | [], _ => trivial
  | none :: rest, handed => Obj.AllScoped.mono weaker rest handed
  | some o :: rest, handed =>
      ⟨Obj.Scoped.mono weaker o handed.1, Obj.AllScoped.mono weaker rest handed.2⟩

end

theorem ScopedResult.mono {known known' : String → Prop} (weaker : ∀ name, known name → known' name)
    {o : Option Obj} (handed : ScopedResult known o) : ScopedResult known' o :=
  fun x same => Obj.Scoped.mono weaker x (handed x same)

theorem none_scoped (known : String → Prop) : ScopedResult known none := fun _ same => by cases same

theorem temp_scoped (known : String → Prop) (v : Value) : ScopedResult known (some (.temp v)) := by
  intro x same
  cases same
  exact trivial

theorem map_temp_scoped {α : Type} (known : String → Prop) (made : Option α) (f : α → Value) :
    ScopedResult known (made.map fun a => .temp (f a)) := by
  cases made with
  | none => exact none_scoped known
  | some a => exact temp_scoped known (f a)

/-- The objects that a command answers with. -/
def AnswerScoped (known : String → Prop) (c : Command) (r : c.Response) : Prop :=
  match c, r with
  | .symbol _, r => ScopedResult known r
  | .var _, r => ScopedResult known r
  | .operation _ _ _, r => ScopedResult known r
  | .function _ _, r => ScopedResult known r
  | _, _ => True

section Steps
variable {env : Env}

/-- A write in place keeps the symbols and the stage. -/
theorem write_later {c : Command} {w : World} {root : Root} {new : Value} (wears : Wears c w root new) :
    Later env w (w.write root new) := by
  cases root with
  | «variable» name => exact Later.refl env w
  | constant id => exact Later.refl env w
  | registered name => exact Later.refl env w
  | symbol written =>
      rintro name ⟨bound, stages, callback, noCache, stage, entry, here, inside⟩
      refine ⟨isSome_write bound, stages, callback, noCache, stage, entry, ?_, inside⟩
      -- the stage is an integer, and integers are not written in place
      have other : "stage" ≠ written := by
        rintro rfl
        unfold mailspecStage at here
        split at here
        · rename_i n found
          apply wears.notInt
          rw [wears.kind]
          simp [World.read, found, Scalar.type]
        · cases here
      rw [← here]
      simp [mailspecStage, World.write, other]

theorem mailspecStage_congr {w w' : World} (same : w'.symbols "stage" = w.symbols "stage") :
    mailspecStage w' = mailspecStage w := by
  simp only [mailspecStage, same]

theorem symbolGet_later {start w : World} (adds : OnlyAdds env start) (arises : Arises env start w)
    (name : String) :
    Later env w (aclSymbolGet worldOps env.registry w name).1 := by
  rintro other ⟨bound, stages, callback, noCache, stage, entry, here, inside⟩
  refine ⟨(symbolGet_unchanged adds arises name).isSome bound,
    stages, callback, noCache, stage, entry, ?_, inside⟩
  rw [mailspecStage_congr (symbolGet_stage adds arises name), here]

theorem step_later {start : World} (adds : OnlyAdds env start) {c : Command} {w w' : World}
    {r : c.Response} (arises : Arises env start w) (returned : step env c w = .ok (r, w')) :
    Later env w w' := by
  rcases step_effect returned with ⟨name, _, rfl⟩ | ⟨name, o, rfl⟩ | ⟨⟨seed, rfl⟩, _⟩ | ⟨root, new, wears, rfl⟩
  · exact symbolGet_later adds arises name
  · have same : w'.symbols = w.symbols := by
      simp only [step, aclVariableAssign, Except.ok.injEq] at returned
      split at returned
      · cases returned; rfl
      · cases returned; rfl
    have stage : mailspecStage w' = mailspecStage w := mailspecStage_congr (by rw [same])
    intro other known
    unfold Known Available at known ⊢
    rw [stage, same]
    exact known
  · exact Later.refl env w
  · exact write_later wears

theorem pack_scoped {known : String → Prop} {x : Except Fault (Option Value)} {w w' : World}
    {r : Option Obj} (returned : x.map (fun v => (v.map Obj.temp, w)) = .ok (r, w')) :
    ScopedResult known r := by
  cases x with
  | error f => cases returned
  | ok v => cases returned; exact map_temp_scoped known v id

theorem operation_scoped {known : String → Prop} {libc : Libc} {stack : Int} {op : Operation}
    {left right : Option Obj} {w w' : World} {r : Option Obj}
    (returned : expOperation libc stack op left right w = .ok (r, w'))
    (handed : ScopedResult known left) : ScopedResult known r := by
  unfold expOperation at returned
  cases op with
  | compare op => exact pack_scoped returned
  | regex negated => exact pack_scoped returned
  | isIn => exact pack_scoped returned
  | math op =>
      simp only [] at returned
      split at returned
      · split at returned
        · rename_i address length _
          unfold expAddrPrefix at returned
          split at returned
          · cases returned
            intro x same
            cases same
            cases address with
            | stored root => exact handed _ rfl
            | temp v => exact trivial
            | list items => exact trivial
          · cases returned
        · exact pack_scoped returned
      · exact pack_scoped returned

theorem functionComplex_scoped (known : String → Prop) {libc : Libc} {f : Builtin}
    {args : List (Option Arg)} {w : World} {o : Option Obj}
    (made : functionComplex libc f args w = .ok o) : ScopedResult known o := by
  unfold functionComplex at made
  split at made
  · cases made; exact temp_scoped known _
  · cases made; exact temp_scoped known _
  · cases made; exact temp_scoped known _
  · cases made; exact temp_scoped known _
  · split at made
    · cases made; exact map_temp_scoped known _ id
    · cases made
    · cases made; exact none_scoped known
  · cases made; exact temp_scoped known _
  · cases made; exact none_scoped known

theorem functionSimple_scoped (known : String → Prop) {libc : Libc} {f : Builtin}
    {args : List (Option Arg)} {argv : List (Option Bytes)} {w w' : World} {o : Option Obj}
    (made : functionSimple libc f args argv w = .ok (o, w')) : ScopedResult known o := by
  unfold functionSimple at made
  split at made
  · cases made; exact temp_scoped known _
  · cases made
  · cases made; exact temp_scoped known _
  · cases made
  · cases made; exact temp_scoped known _
  · cases made; exact temp_scoped known _
  · cases made; exact map_temp_scoped known _ _
  · cases made; exact temp_scoped known _
  · cases made; exact temp_scoped known _
  · split at made
    · cases made; exact none_scoped known
    · cases made; exact map_temp_scoped known _ _
  · cases made; exact temp_scoped known _
  · cases made; exact temp_scoped known _
  · cases made; exact none_scoped known

/-- Functions return variables of their own. -/
theorem function_scoped (known : String → Prop) {libc : Libc} {f : Builtin} {args : Option Obj}
    {w w' : World} {r : Option Obj} (returned : expFunction libc f args w = .ok (r, w')) :
    ScopedResult known r := by
  unfold expFunction at returned
  split at returned
  · cases returned
  · rename_i list _
    split at returned
    · cases made : functionComplex libc f list w with
      | error fault => rw [made] at returned; cases returned
      | ok o => rw [made] at returned; cases returned; exact functionComplex_scoped known made
    · split at returned
      · split at returned
        · cases returned; exact none_scoped known
        · exact functionSimple_scoped known returned
      · cases returned; exact none_scoped known

theorem symbolGet_scoped {start w : World} (adds : OnlyAdds env start) (arises : Arises env start w)
    (name : String) :
    ScopedResult (Known env (aclSymbolGet worldOps env.registry w name).1)
      (aclSymbolGet worldOps env.registry w name).2 := by
  have stage := mailspecStage_congr (symbolGet_stage adds arises name)
  generalize aclSymbolGet worldOps env.registry w name = result, symbolGet_result env w name = how
    at stage ⊢
  have kept (available : Available env w name) : Available env result.1 name := by
    unfold Available at available ⊢
    rw [stage]
    exact available
  intro x same
  cases how with
  | unavailable _ _ => cases same
  | constant _ _ _ => cases same; exact trivial
  | cached available bound => cases same; exact ⟨bound, available⟩
  | unset _ available _ =>
      cases same
      exact ⟨by simp [vtableSetNull], kept available⟩
  | computed callable available =>
      simp only [] at same
      split at same
      · obtain ⟨v, bound, rfl⟩ := Option.map_eq_some_iff.mp same
        exact ⟨by simp [bound], kept available⟩
      · cases same

/-- A command that was given good pointers answers with good pointers. -/
theorem step_answer {start : World} (adds : OnlyAdds env start) {c : Command} {w w' : World}
    {r : c.Response} (arises : Arises env start w) (returned : step env c w = .ok (r, w'))
    (handed : c.Scoped (Known env w)) :
    AnswerScoped (Known env w') c r := by
  have later := step_later adds arises returned
  cases c with
  | symbol name =>
      cases returned
      exact symbolGet_scoped adds arises name
  | var name =>
      cases returned
      intro x same
      obtain ⟨v, _, rfl⟩ := Option.map_eq_some_iff.mp same
      exact trivial
  | operation op left right =>
      have before : ScopedResult (Known env w) r := operation_scoped returned handed.1
      exact ScopedResult.mono later before
  | function f args => exact function_scoped _ returned
  | visit e => exact trivial
  | stage => exact trivial
  | getsymval name => exact trivial
  | isSet name => exact trivial
  | assign name o => exact trivial
  | truth o => exact trivial
  | value o => exact trivial

end Steps

/-! ## Programs -/

/-- From `w` the program issues commands with good pointers only, forgets none
of them, and what it returns satisfies `Q`. -/
def Fine {α : Type} (env : Env) (start w : World) (p : EvalM α) (Q : α → World → Prop) : Prop :=
  Arises env start w → Prog.Sat (step env) (fun c v => Arises env start v ∧ c.Scoped (Known env v)) p w
    fun a w' => Arises env start w' ∧ Later env w w' ∧ Q a w'

section Programs
variable {env : Env} {start : World} {α β : Type}

theorem fine_pure {w : World} {Q : α → World → Prop} {a : α} (post : Q a w) :
    Fine env start w (pure a) Q :=
  fun arises => Prog.sat_pure ⟨arises, Later.refl env w, post⟩

theorem fine_command (adds : OnlyAdds env start) {w : World} {c : Command}
    {Q : c.Response → World → Prop} (handed : c.Scoped (Known env w))
    (post : ∀ r w', AnswerScoped (Known env w') c r → Q r w') : Fine env start w (command c) Q :=
  fun arises => Prog.sat_issue ⟨arises, handed⟩ fun r w' returned =>
    ⟨.step arises returned, step_later adds arises returned,
      post r w' (step_answer adds arises returned handed)⟩

theorem fine_bind {w : World} {p : EvalM α} {f : α → EvalM β} {P : α → World → Prop}
    {Q : β → World → Prop} (first : Fine env start w p P)
    (second : ∀ a w', Later env w w' → P a w' → Fine env start w' (f a) Q) :
    Fine env start w (p >>= f) Q := by
  intro arises
  refine Prog.sat_bind ((first arises).mono ?_)
  rintro a w' ⟨arises', later, holds⟩
  refine (second a w' later holds arises').mono ?_
  rintro b w'' ⟨arises'', later', post⟩
  exact ⟨arises'', later.trans later', post⟩

/-- The program returns a good pointer, wherever it is started. -/
def Returns (env : Env) (start : World) (p : EvalM (Option Obj)) : Prop :=
  ∀ w, Fine env start w p fun o w' => ScopedResult (Known env w') o

variable (adds : OnlyAdds env start)
include adds

theorem fine_truth {w : World} {o : Obj} (handed : o.Scoped (Known env w)) :
    Fine env start w (truth o) fun _ _ => True :=
  fine_command adds handed fun _ _ _ => trivial

theorem returns_symbol (name : String) : Returns env start (symbolGet name) :=
  fun _ => fine_command adds trivial fun _ _ answer => answer

theorem returns_bool (op : Connective) {left right : EvalM (Option Obj)} (first : Returns env start left)
    (second : Returns env start right) : Returns env start (expBool op left right) := by
  intro w
  refine fine_bind (first w) fun l w₁ _ handed => ?_
  cases l with
  | none => exact fine_pure (none_scoped _)
  | some l =>
      refine fine_bind (fine_truth adds (handed l rfl)) fun status w₂ later _ => ?_
      have still := ScopedResult.mono later handed
      split
      · exact fine_pure still
      · split
        · exact fine_pure (temp_scoped _ _)
        · refine fine_bind (second w₂) fun r w₃ _ handed' => ?_
          cases r with
          | none => exact fine_pure (none_scoped _)
          | some r =>
              refine fine_bind (fine_truth adds (handed' r rfl)) fun other w₄ later' _ => ?_
              split
              · exact fine_pure (ScopedResult.mono later' handed')
              · exact fine_pure (map_temp_scoped _ _ id)

theorem returns_not {operand : EvalM (Option Obj)} (first : Returns env start operand) :
    Returns env start (operand >>= expNot) := by
  intro w
  refine fine_bind (first w) fun o w₁ _ handed => ?_
  cases o with
  | none => exact fine_pure (temp_scoped _ _)
  | some o =>
      refine fine_bind (fine_truth adds (handed o rfl)) fun status w₂ _ _ => ?_
      cases status with
      | none => exact fine_pure (temp_scoped _ _)
      | some b => exact fine_pure (temp_scoped _ _)

theorem returns_isNull {operand : EvalM (Option Obj)} (first : Returns env start operand) :
    Returns env start (operand >>= expIsNull) := by
  intro w
  refine fine_bind (first w) fun o w₁ _ handed => ?_
  cases o with
  | none => exact fine_pure (temp_scoped _ _)
  | some o =>
      exact fine_bind (fine_truth adds (handed o rfl)) fun _ _ _ _ => fine_pure (temp_scoped _ _)

theorem returns_assign (name : String) {value : EvalM (Option Obj)} (first : Returns env start value) :
    Returns env start (value >>= expAssign name) := by
  intro w
  refine fine_bind (first w) fun o w₁ _ handed => ?_
  cases o with
  | none => exact fine_pure (none_scoped _)
  | some o =>
      refine fine_bind (fine_command adds (handed o rfl) fun _ _ answer => answer)
        fun stored w₂ later _ => ?_
      apply fine_pure
      cases stored with
      | true => exact ScopedResult.mono later handed
      | false => exact none_scoped _

theorem returns_isset (operand : Exp) : Returns env start (expIsset operand) := by
  intro w
  cases operand with
  | symbol name =>
      exact fine_bind (fine_command adds trivial fun _ _ answer => answer)
        fun _ _ _ _ => fine_pure (temp_scoped _ _)
  | _ => exact fine_pure (none_scoped _)

theorem returns_variable (name : String) : Returns env start (expEvalVariable name) := by
  intro w
  refine fine_bind (fine_command adds trivial fun _ _ answer => answer) fun value w₁ _ handed => ?_
  apply fine_pure
  cases value with
  | none => exact temp_scoped _ _
  | some o => exact handed

theorem returns_macro (name : String) : Returns env start (expEvalMacro name) := by
  intro w
  refine fine_bind (fine_command adds trivial fun _ _ answer => answer) fun stage w₁ _ _ => ?_
  cases stage with
  | none => exact fine_pure (none_scoped _)
  | some _ =>
      refine fine_bind (returns_symbol adds "milter_ctx" w₁) fun ctx w₂ _ _ => ?_
      refine fine_bind (returns_symbol adds "stagename" w₂) fun stagename w₃ _ _ => ?_
      split
      · exact fine_pure (temp_scoped _ _)
      · exact fine_bind (fine_command adds trivial fun _ _ answer => answer)
          fun _ _ _ _ => fine_pure (temp_scoped _ _)

theorem returns_ternary {condition yes no : EvalM (Option Obj)} (first : Returns env start condition)
    (second : Returns env start yes) (third : Returns env start no) :
    Returns env start (expEvalTernary condition yes no) := by
  intro w
  refine fine_bind (first w) fun o w₁ _ handed => ?_
  cases o with
  | none => exact fine_pure (none_scoped _)
  | some o =>
      refine fine_bind (fine_truth adds (handed o rfl)) fun status w₂ _ _ => ?_
      split
      · exact second w₂
      · exact third w₂

theorem returns_apply (op : Operation) {left right : EvalM (Option Obj)} (first : Returns env start left)
    (second : Returns env start right) : Returns env start (expApply op left right) := by
  intro w
  refine fine_bind (first w) fun l w₁ _ handed => ?_
  refine fine_bind (second w₁) fun r w₂ later handed' => ?_
  exact fine_command adds ⟨ScopedResult.mono later handed, handed'⟩ fun _ _ answer => answer

theorem returns_call (f : Builtin) {args : EvalM (Option Obj)} (first : Returns env start args) :
    Returns env start (expCall f args) := by
  intro w
  refine fine_bind (first w) fun o w₁ _ handed => ?_
  cases o with
  | none => exact fine_pure (none_scoped _)
  | some o => exact fine_command adds handed fun _ _ answer => answer

end Programs

mutual

/-- Every command of an evaluation is given good pointers, and so is its caller. -/
theorem expEval_returns {env : Env} {start : World} (adds : OnlyAdds env start) :
    ∀ e : Exp, Returns env start (expEval e) := by
  intro e w
  unfold expEval
  refine fine_bind (fine_command adds trivial fun _ _ answer => answer) fun _ w₁ _ _ => ?_
  cases e with
  | parentheses inner => exact expEval_returns adds inner w₁
  | constant id => exact fine_pure fun x same => by cases same; exact trivial
  | list items =>
      refine fine_bind (expEvalList_returns adds items w₁) fun os w₂ _ handed => ?_
      exact fine_pure fun x same => by cases same; exact handed
  | symbol name => exact returns_symbol adds name w₁
  | function f args =>
      cases args with
      | none => exact fine_command adds (none_scoped _) fun _ _ answer => answer
      | some args => exact returns_call adds f (expEval_returns adds args) w₁
  | assign name value => exact returns_assign adds name (expEval_returns adds value) w₁
  | isSet operand => exact returns_isset adds operand w₁
  | not operand => exact returns_not adds (expEval_returns adds operand) w₁
  | isNull operand => exact returns_isNull adds (expEval_returns adds operand) w₁
  | connective op left right =>
      exact returns_bool adds op (expEval_returns adds left) (expEval_returns adds right) w₁
  | operation op left right =>
      exact returns_apply adds op (expEval_returns adds left) (expEval_returns adds right) w₁
  | var name => exact returns_variable adds name w₁
  | macroRef name => exact returns_macro adds name w₁
  | ternary condition yes no =>
      exact returns_ternary adds (expEval_returns adds condition) (expEval_returns adds yes)
        (expEval_returns adds no) w₁

theorem expEvalList_returns {env : Env} {start : World} (adds : OnlyAdds env start) :
    ∀ (items : List Exp) (w : World),
    Fine env start w (expEvalList items) fun os w' => Obj.AllScoped (Known env w') os := by
  intro items w
  cases items with
  | nil => exact fine_pure trivial
  | cons item rest =>
      refine fine_bind (expEval_returns adds item w) fun o w₁ _ handed => ?_
      refine fine_bind (expEvalList_returns adds rest w₁) fun os w₂ later handed' => ?_
      apply fine_pure
      cases o with
      | none => exact handed'
      | some o => exact ⟨Obj.Scoped.mono later o (handed o rfl), handed'⟩

end

end Mopher
