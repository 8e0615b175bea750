import Mopher.Eval.InPlace
import Mopher.Eval.Scope

/-!
# Symbols and their callbacks

What `acl_symbol_get` does to a mailspec when symbol callbacks do what they are
there for: add the symbol that was asked for, and leave the ones that are there
alone.  `ideal` gives the value that each symbol has in a mailspec, or would be
computed to have; a symbol whose callback fails has none.
-/

set_option autoImplicit false

namespace Mopher

/-- Every symbol and variable of the mailspec and every constant keeps its
value; symbols may be added. -/
structure Unchanged (w w' : World) : Prop where
  symbols : ∀ name v, w.symbols name = some v → w'.symbols name = some v
  vars : w'.vars = w.vars
  constants : w'.constants = w.constants
  registered : w'.registered = w.registered

theorem Unchanged.refl (w : World) : Unchanged w w := ⟨fun _ _ bound => bound, rfl, rfl, rfl⟩

theorem Unchanged.trans {u v w : World} (first : Unchanged u v) (second : Unchanged v w) :
    Unchanged u w where
  symbols name value bound := second.symbols name value (first.symbols name value bound)
  vars := second.vars.trans first.vars
  constants := second.constants.trans first.constants
  registered := second.registered.trans first.registered

theorem SameStore.unchanged {w w' : World} (same : SameStore w w') : Unchanged w w' := by
  obtain ⟨seed, rfl⟩ := same
  exact ⟨fun _ _ bound => bound, rfl, rfl, rfl⟩

theorem Unchanged.isSome {w w' : World} (unchanged : Unchanged w w') {name : String}
    (bound : (w.symbols name).isSome = true) : (w'.symbols name).isSome = true := by
  obtain ⟨v, found⟩ := Option.isSome_iff_exists.mp bound
  rw [unchanged.symbols name v found]
  rfl

/-- A variable that is there reads as before. -/
theorem Unchanged.read {w w' : World} (unchanged : Unchanged w w') {root : Root}
    (bound : root.Scoped fun name => (w.symbols name).isSome = true) : w'.read root = w.read root := by
  cases root with
  | symbol name =>
      obtain ⟨v, found⟩ := Option.isSome_iff_exists.mp bound
      simp only [World.read, found, unchanged.symbols name v found]
  | «variable» name => simp only [World.read, unchanged.vars]
  | constant id => simp only [World.read, unchanged.constants]
  | registered name => simp only [World.read, unchanged.registered]

/-- The symbol can be read at the stage of the mailspec. -/
def Available (env : Env) (w : World) (name : String) : Prop :=
  ∃ stages callback noCache stage, env.registry name = some (.symbol stages callback noCache) ∧
    mailspecStage w = some stage ∧ stages &&& stage ≠ 0

/-- `acl_symbol_get` calls this callback. -/
def Callable (env : Env) (w : World) (name : String) (stage : StageMask)
    (callback : StageMask → String → World → World × Bool) : Prop :=
  ∃ stages noCache, env.registry name = some (.symbol stages (some callback) noCache) ∧
    mailspecStage w = some stage ∧ stages &&& stage ≠ 0 ∧
      (noCache = false → w.symbols name = none)

/-- The mailspecs that evaluations make of the first one. -/
inductive Arises (env : Env) (start : World) : World → Prop where
  | start : Arises env start start
  | step {c : Command} {w w' : World} {r : c.Response} (before : Arises env start w)
      (returned : step env c w = .ok (r, w')) : Arises env start w'

section Callbacks
variable (env : Env) (ideal : String → Option Value)

/-- The symbols that are there have their ideal values, and a symbol that nobody
computes and nobody has set is null. -/
structure Settled (w : World) : Prop where
  bound : ∀ name v, w.symbols name = some v → ideal name = some v
  unset : ∀ name stages noCache, env.registry name = some (.symbol stages none noCache) →
    w.symbols name = none → ideal name = some (.nil .int)

/-- Callbacks add symbols and change none. -/
structure OnlyAdds (start : World) : Prop where
  adds : ∀ w name stage callback, Arises env start w → Callable env w name stage callback →
    Unchanged w (callback stage name w).1
  cached : ∀ name stages noCache, env.registry name = some (.symbol stages none noCache) →
    noCache = false

/-- The mailspec is the first one, with some symbols computed. -/
structure Pristine (start w : World) : Prop where
  arises : Arises env start w
  unchanged : Unchanged start w
  settled : Settled env ideal w
  stage : w.symbols "stage" = start.symbols "stage"

/-- In a mailspec that only computed symbols were added to, a callback computes
ideal values, whatever else was computed before. -/
structure Coherent (start : World) : Prop extends OnlyAdds env start where
  settles : ∀ w name stage callback, Pristine env ideal start w →
    Callable env w name stage callback → Settled env ideal (callback stage name w).1
  succeeds : ∀ w name stage callback, Pristine env ideal start w →
    Callable env w name stage callback → (callback stage name w).2 = (ideal name).isSome
  sets : ∀ w name stage callback, Pristine env ideal start w →
    Callable env w name stage callback → (ideal name).isSome = true →
      ((callback stage name w).1.symbols name).isSome = true

end Callbacks

/-! ## `acl_symbol_get` -/

/-- What `acl_symbol_get` can do. -/
inductive SymbolResult (env : Env) (w : World) (name : String) : World × Option Obj → Prop where
  | unavailable (none' : ¬ Available env w name)
      (noConstant : ∀ stages value, env.registry name ≠ some (.constant stages value) ∨
        mailspecStage w = none ∨ ∃ stage, mailspecStage w = some stage ∧ stages &&& stage = 0) :
      SymbolResult env w name (w, none)
  | constant {stages : StageMask} {stage : StageMask}
      (entry : env.registry name = some (.constant stages (.stored (.registered name))))
      (here : mailspecStage w = some stage) (inside : stages &&& stage ≠ 0) :
      SymbolResult env w name (w, some (.stored (.registered name)))
  | cached (available : Available env w name) (bound : (w.symbols name).isSome = true) :
      SymbolResult env w name (w, some (.stored (.symbol name)))
  | unset {stages : StageMask} {noCache : Bool}
      (entry : env.registry name = some (.symbol stages none noCache))
      (available : Available env w name) (unbound : noCache = false → w.symbols name = none) :
      SymbolResult env w name
        ({ w with symbols := vtableSetNull w.symbols name }, some (.stored (.symbol name)))
  | computed {stage : StageMask} {callback : StageMask → String → World → World × Bool}
      (callable : Callable env w name stage callback) (available : Available env w name) :
      SymbolResult env w name
        ((callback stage name w).1, if (callback stage name w).2 then
          ((callback stage name w).1.symbols name).map fun _ => .stored (.symbol name) else none)

section SymbolGet
variable {env : Env} {ideal : String → Option Value}

/-- A symbol that is read at a stage outside of its own. -/
theorem symbolGet_outside {w : World} {name : String} {symbol : AclSymbol World Obj} {stage : StageMask}
    (entry : env.registry name = some symbol) (here : mailspecStage w = some stage)
    (outside : symbol.stages &&& stage = 0) : SymbolResult env w name (w, none) := by
  refine .unavailable ?_ fun stages value => ?_
  · rintro ⟨stages, callback, noCache, stage', found, here', inside⟩
    cases entry.symm.trans found
    cases here.symm.trans here'
    exact inside outside
  · by_cases same : env.registry name = some (.constant stages value)
    · cases entry.symm.trans same
      exact .inr (.inr ⟨stage, here, outside⟩)
    · exact .inl same

/-- A symbol of a callback, at one of its stages: what is cached, null or what the
callback computes. -/
theorem symbolGet_symbol {w : World} {name : String} {stages stage : StageMask}
    {callback : Option (StageMask → String → World → World × Bool)} {noCache : Bool}
    (entry : env.registry name = some (.symbol stages callback noCache))
    (here : mailspecStage w = some stage) (inside : stages &&& stage ≠ 0) :
    SymbolResult env w name (aclSymbolGet worldOps env.registry w name) := by
  have available : Available env w name := ⟨stages, callback, noCache, stage, entry, here, inside⟩
  have opsStage : worldOps.stage w = some stage := here
  rw [aclSymbolGet_symbol worldOps entry opsStage inside]
  cases cached : (if noCache then none else worldOps.lookup w name) with
  | some found =>
      have lookup : worldOps.lookup w name = some found := by
        cases noCache with
        | true => cases cached
        | false => exact cached
      obtain ⟨v, bound, rfl⟩ := Option.map_eq_some_iff.mp lookup
      exact .cached available (by simp [bound])
  | none =>
      have unbound (isFalse : noCache = false) : w.symbols name = none := by
        subst isFalse
        exact Option.map_eq_none_iff.mp cached
      cases callback with
      | none =>
          have result : symbolCompute worldOps none stage w name =
              ({ w with symbols := vtableSetNull w.symbols name }, some (.stored (.symbol name))) := by
            simp [symbolCompute, worldOps, vtableSetNull]
          simp only [result]
          exact .unset entry available unbound
      | some run => exact .computed ⟨stages, noCache, entry, here, inside, unbound⟩ available

theorem symbolGet_result (env : Env) (w : World) (name : String) :
    SymbolResult env w name (aclSymbolGet worldOps env.registry w name) := by
  cases entry : env.registry name with
  | none =>
      have result : aclSymbolGet worldOps env.registry w name = (w, none) := by
        simp [aclSymbolGet, entry]
      rw [result]
      refine .unavailable ?_ fun stages value => .inl (by simp [entry])
      rintro ⟨stages, callback, noCache, stage, found, _⟩
      cases entry.symm.trans found
  | some symbol =>
      cases here : mailspecStage w with
      | none =>
          have opsStage : worldOps.stage w = none := here
          have result : aclSymbolGet worldOps env.registry w name = (w, none) := by
            simp [aclSymbolGet, entry, opsStage]
          rw [result]
          refine .unavailable ?_ fun stages value => .inr (.inl here)
          rintro ⟨stages, callback, noCache, stage, _, here', _⟩
          cases here.symm.trans here'
      | some stage =>
          have opsStage : worldOps.stage w = some stage := here
          by_cases outside : symbol.stages &&& stage = 0
          · have result : aclSymbolGet worldOps env.registry w name = (w, none) := by
              simp only [aclSymbolGet, entry, opsStage]
              exact if_pos outside
            rw [result]
            exact symbolGet_outside entry here outside
          · cases symbol with
            | constant stages value =>
                have same := env.registered name stages value entry
                subst same
                have result : aclSymbolGet worldOps env.registry w name =
                    (w, some (.stored (.registered name))) := by
                  simp only [aclSymbolGet, entry, opsStage]
                  exact if_neg outside
                rw [result]
                exact .constant entry here outside
            | other stages =>
                have result : aclSymbolGet worldOps env.registry w name = (w, none) := by
                  simp only [aclSymbolGet, entry, opsStage]
                  exact if_neg outside
                rw [result]
                refine .unavailable ?_ fun stages value => .inl (by simp [entry])
                rintro ⟨stages', callback, noCache, stage', found, _⟩
                cases entry.symm.trans found
            | symbol stages callback noCache => exact symbolGet_symbol entry here outside

/-- Looking a symbol up adds symbols at most. -/
theorem symbolGet_unchanged {start w : World} (adds : OnlyAdds env start)
    (arises : Arises env start w) (name : String) :
    Unchanged w (aclSymbolGet worldOps env.registry w name).1 := by
  generalize aclSymbolGet worldOps env.registry w name = result, symbolGet_result env w name = how
  cases how with
  | unavailable _ _ => exact .refl w
  | constant _ _ _ => exact .refl w
  | cached _ _ => exact .refl w
  | unset entry _ unbound =>
      have none' := unbound (adds.cached _ _ _ entry)
      refine ⟨fun other v bound => ?_, rfl, rfl, rfl⟩
      by_cases same : other = name
      · rw [same, none'] at bound
        cases bound
      · rw [← bound]
        exact vtableSet_other _ _ _ _ same
  | computed callable _ => exact adds.adds _ _ _ _ arises callable

/-- The stage of the mailspec is one of the symbols that stay. -/
theorem symbolGet_stage {start w : World} (adds : OnlyAdds env start)
    (arises : Arises env start w) (name : String) :
    (aclSymbolGet worldOps env.registry w name).1.symbols "stage" = w.symbols "stage" := by
  have unchanged := symbolGet_unchanged adds arises name
  have kept (available : Available env w name) :
      (aclSymbolGet worldOps env.registry w name).1.symbols "stage" = w.symbols "stage" := by
    obtain ⟨_, _, _, stage, _, here, _⟩ := available
    unfold mailspecStage at here
    split at here
    · rename_i n bound
      rw [bound]
      exact unchanged.symbols _ _ bound
    · cases here
  generalize aclSymbolGet worldOps env.registry w name = result, symbolGet_result env w name = how
    at kept ⊢
  cases how with
  | unavailable _ _ => rfl
  | constant _ _ _ => rfl
  | cached _ _ => rfl
  | unset _ available _ => exact kept available
  | computed _ available => exact kept available

/-- What a symbol evaluates to in a mailspec whose symbols have ideal values. -/
def symbolAnswer (env : Env) (ideal : String → Option Value) (stage : Option StageMask)
    (name : String) : Option Obj :=
  match env.registry name, stage with
  | some (.constant stages value), some stage => if stages &&& stage = 0 then none else some value
  | some (.symbol stages _ _), some stage =>
      if stages &&& stage = 0 then none else (ideal name).map fun _ => .stored (.symbol name)
  | _, _ => none

theorem symbolAnswer_available {w : World} {name : String} (available : Available env w name) :
    symbolAnswer env ideal (mailspecStage w) name =
      (ideal name).map fun _ => .stored (.symbol name) := by
  obtain ⟨stages, callback, noCache, stage, entry, here, inside⟩ := available
  simp only [symbolAnswer, entry, here]
  exact if_neg inside

theorem symbolAnswer_unavailable {w : World} {name : String} (none' : ¬ Available env w name)
    (noConstant : ∀ stages value, env.registry name ≠ some (.constant stages value) ∨
      mailspecStage w = none ∨ ∃ stage, mailspecStage w = some stage ∧ stages &&& stage = 0) :
    symbolAnswer env ideal (mailspecStage w) name = none := by
  unfold symbolAnswer
  split
  · rename_i stages value stage entry here
    rcases noConstant stages value with absent | unset | ⟨stage', here', outside⟩
    · exact (absent entry).elim
    · rw [here] at unset
      cases unset
    · rw [here] at here'
      cases here'
      exact if_pos outside
  · rename_i stages callback noCache stage entry here
    by_cases outside : stages &&& stage = 0
    · exact if_pos outside
    · exact (none' ⟨stages, callback, noCache, stage, entry, here, outside⟩).elim
  · rfl

/-- `acl_symbol_get` answers by the ideal values and adds nothing else. -/
theorem symbolGet_answer {start w : World} (coherent : Coherent env ideal start)
    (pristine : Pristine env ideal start w) (name : String) :
    (aclSymbolGet worldOps env.registry w name).2 = symbolAnswer env ideal (mailspecStage w) name ∧
      Settled env ideal (aclSymbolGet worldOps env.registry w name).1 := by
  have settled := pristine.settled
  generalize aclSymbolGet worldOps env.registry w name = result, symbolGet_result env w name = how
  cases how with
  | unavailable none' noConstant => exact ⟨(symbolAnswer_unavailable none' noConstant).symm, settled⟩
  | constant entry here inside =>
      refine ⟨?_, settled⟩
      simp only [symbolAnswer, entry, here]
      exact (if_neg inside).symm
  | cached available bound =>
      obtain ⟨v, found⟩ := Option.isSome_iff_exists.mp bound
      refine ⟨?_, settled⟩
      rw [symbolAnswer_available available, settled.bound name v found]
      rfl
  | unset entry available unbound =>
      have none' := unbound (coherent.cached _ _ _ entry)
      have null := settled.unset name _ _ entry none'
      refine ⟨by rw [symbolAnswer_available available, null]; rfl, ?_, ?_⟩
      · intro other v found
        by_cases same : other = name
        · subst same
          rw [null, ← found]
          exact (vtableSet_same _ _ _).symm
        · rw [← settled.bound other v]
          rw [← found]
          exact (vtableSet_other _ _ _ _ same).symm
      · intro other stages noCache otherEntry found
        by_cases same : other = name
        · subst same
          exact null
        · refine settled.unset other stages noCache otherEntry ?_
          rw [← found]
          exact (vtableSet_other _ _ _ _ same).symm
  | computed callable available =>
      refine ⟨?_, coherent.settles _ _ _ _ pristine callable⟩
      have ok := coherent.succeeds _ _ _ _ pristine callable
      rw [symbolAnswer_available available]
      cases value : ideal name with
      | none =>
          rw [value] at ok
          simp [ok]
      | some v =>
          rw [value] at ok
          obtain ⟨u, bound⟩ := Option.isSome_iff_exists.mp
            (coherent.sets _ _ _ _ pristine callable (by simp [value]))
          simp [ok, bound]

end SymbolGet

end Mopher
