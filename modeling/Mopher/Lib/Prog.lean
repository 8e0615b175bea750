import Mathlib

/-!
# Programs of commands

A program is a tree: it returns, or it issues a command and goes on with the
response.  What a command does is up to a handler, a function of the command and
the world that answers with a response and the next world or faults.  A run
keeps its trace, every command together with the world it was issued in, so that
a statement about a run is a statement about the commands it reached.

The rules below are for an arbitrary set of commands: what a fault says about
the trace, a pre- and postcondition rule for each constructor, a rule for two
runs of one program in related worlds, and a rule for a world that is good until
some command spoils it.
-/

set_option autoImplicit false

universe u

/-- `C` are the commands, `R c` the responses to `c`. -/
inductive Prog (C : Type) (R : C → Type) (α : Type u) : Type u where
  | pure (value : α)
  | call (command : C) (next : R command → Prog C R α)

namespace Prog

section Programs
variable {C : Type} {R : C → Type} {α β : Type}

def bind (p : Prog C R α) (f : α → Prog C R β) : Prog C R β :=
  match p with
  | .pure a => f a
  | .call c next => .call c fun r => bind (next r) f

instance : Monad (Prog C R) where
  pure := Prog.pure
  bind := Prog.bind

/-- The program that issues one command. -/
def issue (c : C) : Prog C R (R c) := .call c .pure

/-- Every command that the program can issue satisfies `P`. -/
def Issues (P : C → Prop) : Prog C R α → Prop
  | .pure _ => True
  | .call c next => P c ∧ ∀ r, Issues P (next r)

theorem issues_pure (P : C → Prop) (a : α) : Issues P (Pure.pure a : Prog C R α) := trivial

theorem issues_issue {P : C → Prop} {c : C} (holds : P c) : Issues P (issue (R := R) c) :=
  ⟨holds, fun _ => trivial⟩

theorem issues_bind {P : C → Prop} {p : Prog C R α} {f : α → Prog C R β} (first : Issues P p)
    (second : ∀ a, Issues P (f a)) : Issues P (p >>= f) := by
  induction p with
  | pure a => exact second a
  | call c next ih => exact ⟨first.1, fun r => ih r (first.2 r)⟩

end Programs

section Runs
variable {C : Type} {R : C → Type} {W F : Type} {α β : Type}
variable (handler : (c : C) → W → Except F (R c × W))

structure Outcome (C W F : Type) (α : Type) where
  trace : List (C × W)
  result : Except F (α × W)

/-- What a run does after a part of it that ended in `first`. -/
def Outcome.andThen (first : Outcome C W F α) (rest : α → W → Outcome C W F β) :
    Outcome C W F β :=
  match first.result with
  | .error f => ⟨first.trace, .error f⟩
  | .ok (a, w) => ⟨first.trace ++ (rest a w).trace, (rest a w).result⟩

def run (p : Prog C R α) (w : W) : Outcome C W F α :=
  match p with
  | .pure a => ⟨[], .ok (a, w)⟩
  | .call c next =>
      match handler c w with
      | .error f => ⟨[(c, w)], .error f⟩
      | .ok (r, w') => ⟨(c, w) :: (run (next r) w').trace, (run (next r) w').result⟩

@[simp] theorem run_pure (a : α) (w : W) :
    run handler (Pure.pure a : Prog C R α) w = ⟨[], .ok (a, w)⟩ := rfl

theorem run_call_ok {c : C} {next : R c → Prog C R α} {w w' : W} {r : R c}
    (answer : handler c w = .ok (r, w')) :
    run handler (.call c next) w =
      ⟨(c, w) :: (run handler (next r) w').trace, (run handler (next r) w').result⟩ := by
  simp only [run, answer]

theorem run_call_error {c : C} {next : R c → Prog C R α} {w : W} {f : F}
    (answer : handler c w = .error f) :
    run handler (.call c next) w = ⟨[(c, w)], .error f⟩ := by
  simp only [run, answer]

theorem run_issue (c : C) (w : W) : run handler (issue c) w = ⟨[(c, w)], handler c w⟩ := by
  unfold issue
  cases answer : handler c w with
  | error f => rw [run_call_error _ answer]
  | ok rw' => rw [run_call_ok _ answer]; rfl

theorem run_bind (p : Prog C R α) (f : α → Prog C R β) : ∀ w : W,
    run handler (p >>= f) w = (run handler p w).andThen fun a w' => run handler (f a) w' := by
  induction p with
  | pure a => intro w; rfl
  | call c next ih =>
      intro w
      change run handler (.call c fun r => next r >>= f) w = _
      cases answer : handler c w with
      | error e => rw [run_call_error _ answer, run_call_error _ answer]; rfl
      | ok rw' =>
          obtain ⟨r, w'⟩ := rw'
          rw [run_call_ok _ answer, run_call_ok _ answer, ih]
          simp only [Outcome.andThen]
          cases (run handler (next r) w').result with
          | error e => rfl
          | ok _ => rfl

/-- A part that returned is followed by the rest. -/
theorem run_bind_ok {p : Prog C R α} {f : α → Prog C R β} {w w' : W} {a : α}
    (returned : (run handler p w).result = .ok (a, w')) :
    run handler (p >>= f) w =
      ⟨(run handler p w).trace ++ (run handler (f a) w').trace, (run handler (f a) w').result⟩ := by
  rw [run_bind]
  simp only [Outcome.andThen, returned]

theorem run_bind_error {p : Prog C R α} {f : α → Prog C R β} {w : W} {e : F}
    (faulted : (run handler p w).result = .error e) :
    run handler (p >>= f) w = ⟨(run handler p w).trace, .error e⟩ := by
  rw [run_bind]
  simp only [Outcome.andThen, faulted]

/-- A run that returned has returned from both of its parts. -/
theorem run_bind_inv {p : Prog C R α} {f : α → Prog C R β} {w w' : W} {b : β}
    (returned : (run handler (p >>= f) w).result = .ok (b, w')) :
    ∃ a v, (run handler p w).result = .ok (a, v) ∧ (run handler (f a) v).result = .ok (b, w') ∧
      (run handler (p >>= f) w).trace = (run handler p w).trace ++ (run handler (f a) v).trace := by
  cases first : (run handler p w).result with
  | error e =>
      rw [run_bind_error handler first] at returned
      cases returned
  | ok av =>
      obtain ⟨a, v⟩ := av
      rw [run_bind_ok handler first] at returned ⊢
      exact ⟨a, v, rfl, returned, rfl⟩

/-- What a run in two parts comes to. -/
theorem result_bind (p : Prog C R α) (f : α → Prog C R β) (w : W) :
    (run handler (p >>= f) w).result =
      (run handler p w).result.bind fun aw => (run handler (f aw.1) aw.2).result := by
  rw [run_bind]
  unfold Outcome.andThen
  cases (run handler p w).result with
  | error e => rfl
  | ok aw => rfl

/-- The trace of the first part is where the trace begins. -/
theorem trace_bind (p : Prog C R α) (f : α → Prog C R β) (w : W) :
    (run handler p w).trace <+: (run handler (p >>= f) w).trace := by
  cases first : (run handler p w).result with
  | error e => rw [run_bind_error handler first]
  | ok av => rw [run_bind_ok handler first]; exact List.prefix_append _ _

/-- A run faults exactly when a command of its trace does. -/
theorem run_error_iff (p : Prog C R α) (f : F) : ∀ w : W,
    (run handler p w).result = .error f ↔
      ∃ c v, (c, v) ∈ (run handler p w).trace ∧ handler c v = .error f := by
  induction p with
  | pure a => intro w; simp [run]
  | call c next ih =>
      intro w
      cases answer : handler c w with
      | error e =>
          rw [run_call_error _ answer]
          constructor
          · intro same
            cases same
            exact ⟨c, w, List.mem_singleton.mpr rfl, answer⟩
          · rintro ⟨d, v, member, faulted⟩
            cases List.mem_singleton.mp member
            rw [answer] at faulted
            cases faulted
            rfl
      | ok rw' =>
          obtain ⟨r, w'⟩ := rw'
          rw [run_call_ok _ answer]
          simp only [List.mem_cons, ih r w']
          constructor
          · rintro ⟨d, v, member, faulted⟩
            exact ⟨d, v, .inr member, faulted⟩
          · rintro ⟨d, v, same | member, faulted⟩
            · cases same
              rw [answer] at faulted
              cases faulted
            · exact ⟨d, v, member, faulted⟩

/-- The commands of a trace are commands that the program issues. -/
theorem Issues.trace {P : C → Prop} {p : Prog C R α} (issues : Issues P p) : ∀ (w : W) (c : C) (v : W),
    (c, v) ∈ (run handler p w).trace → P c := by
  induction p with
  | pure a => intro w c v member; cases member
  | call d next ih =>
      intro w c v member
      cases answer : handler d w with
      | error e =>
          rw [run_call_error _ answer] at member
          cases List.mem_singleton.mp member
          exact issues.1
      | ok rw' =>
          obtain ⟨r, w'⟩ := rw'
          rw [run_call_ok _ answer] at member
          rcases List.mem_cons.mp member with same | later
          · cases same
            exact issues.1
          · exact ih r (issues.2 r) w' c v later

/-! ## Pre- and postconditions -/

/-- Started in `w`, the program issues commands only where `P` allows them, and
`Q` holds of what it returns. -/
def Sat (P : C → W → Prop) (p : Prog C R α) (w : W) (Q : α → W → Prop) : Prop :=
  (∀ c v, (c, v) ∈ (run handler p w).trace → P c v) ∧
    ∀ a w', (run handler p w).result = .ok (a, w') → Q a w'

/-- One command in two worlds gives the same response and related worlds, or
the same fault. -/
def Matches (rel : W → W → Prop) (c : C) (v w : W) : Prop :=
  match handler c v, handler c w with
  | .ok (r, v'), .ok (s, w') => r = s ∧ rel v' w'
  | .error f, .error g => f = g
  | _, _ => False

variable {handler}

theorem sat_pure {P : C → W → Prop} {Q : α → W → Prop} {a : α} {w : W} (post : Q a w) :
    Sat handler P (Pure.pure a : Prog C R α) w Q := by
  constructor
  · intro c v member
    cases member
  · intro b w' returned
    cases returned
    exact post

theorem sat_issue {P : C → W → Prop} {c : C} {Q : R c → W → Prop} {w : W} (pre : P c w)
    (post : ∀ r w', handler c w = .ok (r, w') → Q r w') : Sat handler P (issue c) w Q := by
  unfold Sat
  rw [run_issue]
  refine ⟨fun d v member => ?_, post⟩
  cases List.mem_singleton.mp member
  exact pre

theorem sat_bind {P : C → W → Prop} {Q : β → W → Prop} {p : Prog C R α} {f : α → Prog C R β} {w : W}
    (first : Sat handler P p w fun a w' => Sat handler P (f a) w' Q) :
    Sat handler P (p >>= f) w Q := by
  unfold Sat
  cases returned : (run handler p w).result with
  | error e =>
      rw [run_bind_error handler returned]
      exact ⟨first.1, fun _ _ impossible => by cases impossible⟩
  | ok av =>
      rw [run_bind_ok handler returned]
      obtain ⟨later, post⟩ := first.2 av.1 av.2 returned
      refine ⟨fun c v member => ?_, post⟩
      rcases List.mem_append.mp member with early | late
      · exact first.1 c v early
      · exact later c v late

theorem Sat.mono {P : C → W → Prop} {Q Q' : α → W → Prop} {p : Prog C R α} {w : W}
    (sat : Sat handler P p w Q) (weaker : ∀ a w', Q a w' → Q' a w') : Sat handler P p w Q' :=
  ⟨sat.1, fun a w' returned => weaker a w' (sat.2 a w' returned)⟩

/-! ## Two runs of one program -/

/-- Two results that agree but for the world. -/
def SameResult (rel : W → W → Prop) : Except F (α × W) → Except F (α × W) → Prop
  | .ok (a, v), .ok (b, w) => a = b ∧ rel v w
  | .error f, .error g => f = g
  | _, _ => False

theorem SameResult.map_fst {rel : W → W → Prop} {x y : Except F (α × W)} (same : SameResult rel x y) :
    x.map Prod.fst = y.map Prod.fst := by
  cases x with
  | error f =>
      cases y with
      | error g => exact congrArg Except.error same
      | ok b => exact same.elim
  | ok a =>
      cases y with
      | error g => exact same.elim
      | ok b => exact congrArg Except.ok same.1

/-- Results that agree are followed by results that agree. -/
theorem SameResult.followed {rel : W → W → Prop} {x y : Except F (α × W)}
    {f g : α × W → Except F (β × W)} (same : SameResult rel x y)
    (rest : ∀ a v w, x = .ok (a, v) → y = .ok (a, w) → rel v w → SameResult rel (f (a, v)) (g (a, w))) :
    SameResult rel (x.bind f) (y.bind g) := by
  cases x with
  | error e =>
      cases y with
      | error e' => exact same
      | ok b => exact same.elim
  | ok a =>
      cases y with
      | error e' => exact same.elim
      | ok b =>
          obtain ⟨a, v⟩ := a
          obtain ⟨b, w⟩ := b
          obtain ⟨rfl, related⟩ := same
          exact rest a v w rfl rfl related

theorem run_related {rel : W → W → Prop} (p : Prog C R α) : ∀ {v w : W}, rel v w →
    (∀ c v' w', (c, v') ∈ (run handler p v).trace → (c, w') ∈ (run handler p w).trace → rel v' w' →
      Matches handler rel c v' w') →
    SameResult rel (run handler p v).result (run handler p w).result := by
  induction p with
  | pure a => intro v w related _; exact ⟨rfl, related⟩
  | call c next ih =>
      intro v w related step
      have both : Matches handler rel c v w := by
        apply step c v w _ _ related
        · unfold run; split <;> exact List.mem_cons_self
        · unfold run; split <;> exact List.mem_cons_self
      unfold Matches at both
      cases left : handler c v with
      | error f =>
          cases right : handler c w with
          | error g =>
              rw [run_call_error _ left, run_call_error _ right]
              simp only [left, right] at both
              exact both
          | ok s => simp only [left, right] at both
      | ok r =>
          cases right : handler c w with
          | error g => simp only [left, right] at both
          | ok s =>
              obtain ⟨r, v'⟩ := r
              obtain ⟨s, w'⟩ := s
              simp only [left, right] at both
              obtain ⟨rfl, related'⟩ := both
              rw [run_call_ok _ left, run_call_ok _ right] at step ⊢
              apply ih r related'
              intro d x y first second
              exact step d x y (List.mem_cons_of_mem _ first) (List.mem_cons_of_mem _ second)

/-! ## Programs that respect a relation -/

variable (handler) in
/-- From related worlds the program comes to the same end, and `Q` holds of what it
returns. -/
def Respects (rel : W → W → Prop) (p : Prog C R α) (Q : α → Prop) : Prop :=
  ∀ v w, rel v w → SameResult rel (run handler p v).result (run handler p w).result ∧
    ∀ a v', (run handler p v).result = .ok (a, v') → Q a

theorem respects_pure {rel : W → W → Prop} {Q : α → Prop} {a : α} (post : Q a) :
    Respects handler rel (Pure.pure a : Prog C R α) Q := by
  intro v w related
  refine ⟨⟨rfl, related⟩, ?_⟩
  intro b v' returned
  cases returned
  exact post

theorem respects_issue {rel : W → W → Prop} {c : C} {Q : R c → Prop}
    (step : ∀ v w, rel v w → SameResult rel (handler c v) (handler c w) ∧
      ∀ r v', handler c v = .ok (r, v') → Q r) : Respects handler rel (issue c) Q := by
  intro v w related
  rw [run_issue, run_issue]
  exact step v w related

theorem respects_bind {rel : W → W → Prop} {p : Prog C R α} {f : α → Prog C R β} {P : α → Prop}
    {Q : β → Prop} (first : Respects handler rel p P)
    (second : ∀ a, P a → Respects handler rel (f a) Q) : Respects handler rel (p >>= f) Q := by
  intro v w related
  obtain ⟨same, post⟩ := first v w related
  rw [result_bind, result_bind]
  refine ⟨same.followed fun a v' w' left _ related' => ?_, ?_⟩
  · exact (second a (post a v' left) v' w' related').1
  · intro b v'' returned
    cases left : (run handler p v).result with
    | error e => rw [left] at returned; cases returned
    | ok av =>
        rw [left] at returned
        cases right : (run handler p w).result with
        | error e => rw [left, right] at same; exact same.elim
        | ok bw =>
            rw [left, right] at same
            exact (second av.1 (post av.1 av.2 left) av.2 bw.2 same.2).2 b v'' returned

/-! ## A world that is good until it is spoiled -/

/-- Good worlds stay good unless a harmful command spoils them, and spoiled
worlds stay spoiled.  So the end is good exactly when nothing harmful was done. -/
theorem run_good_or_spoiled {Good Spoiled : W → Prop} {Harmful : C → W → Prop} (p : Prog C R α) :
    ∀ {w w' : W} {a : α}, (run handler p w).result = .ok (a, w') →
    (∀ c v r v', (c, v) ∈ (run handler p w).trace → handler c v = .ok (r, v') →
      (Good v → ¬ Harmful c v → Good v') ∧ (Good v → Harmful c v → Spoiled v') ∧
        (Spoiled v → Spoiled v')) →
    (Spoiled w → Spoiled w') ∧
      (Good w → ((∀ c v, (c, v) ∈ (run handler p w).trace → ¬ Harmful c v) ∧ Good w') ∨
        ((∃ c v, (c, v) ∈ (run handler p w).trace ∧ Harmful c v) ∧ Spoiled w')) := by
  induction p with
  | pure a =>
      intro w w' b returned _
      cases returned
      exact ⟨id, fun good => .inl ⟨fun c v member => (by cases member), good⟩⟩
  | call c next ih =>
      intro w w' a returned steps
      cases answer : handler c w with
      | error e =>
          rw [run_call_error _ answer] at returned
          cases returned
      | ok rw' =>
          obtain ⟨r, v⟩ := rw'
          rw [run_call_ok _ answer] at returned steps ⊢
          obtain ⟨keeps, spoils, stays⟩ := steps c w r v List.mem_cons_self answer
          obtain ⟨spoiledLater, goodLater⟩ := ih r returned
            fun d x s y member => steps d x s y (List.mem_cons_of_mem _ member)
          refine ⟨fun spoiled => spoiledLater (stays spoiled), fun good => ?_⟩
          by_cases harmful : Harmful c w
          · exact .inr ⟨⟨c, w, List.mem_cons_self, harmful⟩, spoiledLater (spoils good harmful)⟩
          · rcases goodLater (keeps good harmful) with ⟨harmless, goodEnd⟩ | ⟨⟨d, x, member, bad⟩, spoiled⟩
            · refine .inl ⟨fun d x member => ?_, goodEnd⟩
              rcases List.mem_cons.mp member with same | later
              · cases same
                exact harmful
              · exact harmless d x later
            · exact .inr ⟨⟨d, x, List.mem_cons_of_mem _ member, bad⟩, spoiled⟩

end Runs

end Prog
