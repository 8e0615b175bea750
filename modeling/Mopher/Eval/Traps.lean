import Mopher.Eval.NullRead

/-!
# Where a division traps

`exp_math_int` divides without a look at the right number.  The machine traps when
that is 0, and for the smallest `long` divided by -1.  Nothing else in an
expression traps, so an evaluation does exactly when it reaches such a division.
-/

set_option autoImplicit false

namespace Mopher

/-- The number that an operand is when the larger type is `VT_INT`. -/
def intOperand : Value → Option Int
  | .scalar (.int n) => some n
  | .scalar (.addr a) => if utilAddrtoint a = -1 then none else some (utilAddrtoint a)
  | _ => none

/-- The machine has no answer to the division. -/
def NoQuotient (left right : Int) : Prop := right = 0 ∨ (left = longMin ∧ right = -1)

instance (left right : Int) : Decidable (NoQuotient left right) :=
  inferInstanceAs (Decidable (_ ∨ _))

/-- `/` or `%` of two numbers that have no quotient.  At least one operand is an
`INT`, for two addresses are not divided, and an address in front of `/` and a
number is masked instead. -/
def OperandsTrap (op : MathOp) (left right : Value) : Prop :=
  (op = .div ∨ op = .mod) ∧ (left.type = .int ∨ right.type = .int) ∧
    ∃ l r, intOperand left = some l ∧ intOperand right = some r ∧ NoQuotient l r

/-- The command divides without a quotient. -/
def Traps (c : Command) (w : World) : Prop :=
  match c with
  | .operation (.math op) (some left) (some right) =>
      OperandsTrap op (left.value w) (right.value w) ∧
        ¬ (op = .div ∧ (left.value w).type = .addr)
  | _ => False

/-! ## Arithmetic -/

section Arithmetic
variable {libc : Libc}

theorem map_trap_iff {α β : Type} {f : α → β} {x : Except Fault α} :
    x.map f = .error .trap ↔ x = .error .trap := by
  cases x <;> simp [Except.map]

/-- One side of an operation whose larger type is `VT_INT`. -/
theorem asInt_iff {v : Value} (low : v.type.rank ≤ VarType.int.rank) (n : Int) :
    (if v.type = .int then some v else varCastCopy libc .int v) = some (.int n) ↔
      intOperand v = some n := by
  cases v with
  | nil t =>
      by_cases int : t = .int
      · simp [int, intOperand]
      · simp [int, Ne.symm int, intOperand, varCastCopy]
  | list items => simp [intOperand, varCastCopy, varAsInt]
  | scalar data =>
      cases data with
      | int m => simp [intOperand, Scalar.type]
      | addr a => simp [intOperand, Scalar.type, varCastCopy, varAsInt]
      | table records => simp [intOperand, Scalar.type, varCastCopy, varAsInt]
      | pointer address => simp [Scalar.type, VarType.rank] at low
      | float pattern => simp [Scalar.type, VarType.rank] at low
      | string text => simp [Scalar.type, VarType.rank] at low
      | blob content => simp [Scalar.type, VarType.rank] at low

theorem expMathInt_trap_iff (op : MathOp) (left right : Value) :
    expMathInt op left right = .error .trap ↔
      (op = .div ∨ op = .mod) ∧ ∃ l r, left = .int l ∧ right = .int r ∧ NoQuotient l r := by
  unfold expMathInt
  split
  · rename_i l r
    simp only [Value.scalar.injEq, Scalar.int.injEq, exists_and_left, exists_eq_left']
    cases op with
    | plus => simp
    | minus => simp
    | times => simp
    | div =>
        change (if NoQuotient l r then _ else _) = _ ↔ _
        by_cases noQuotient : NoQuotient l r
        · simp [noQuotient]
        · simp [noQuotient]
    | mod =>
        change (if NoQuotient l r then _ else _) = _ ↔ _
        by_cases noQuotient : NoQuotient l r
        · simp [noQuotient]
        · simp [noQuotient]
  · rename_i notInts
    simp only [reduceCtorEq, false_iff, not_and, not_exists]
    intro _ l r left' right' _
    exact notInts l r left' right'

theorem maxType_rank (left right : Value) :
    left.type.rank ≤ (maxType left right).rank ∧ right.type.rank ≤ (maxType left right).rank := by
  unfold maxType
  split <;> constructor <;> omega

theorem maxType_eq_int {left right : Value} {l r : Int} (leftInt : intOperand left = some l)
    (rightInt : intOperand right = some r) :
    maxType left right = .int ↔ left.type = .int ∨ right.type = .int := by
  have number {v : Value} {n : Int} (int : intOperand v = some n) :
      v.type = .int ∨ v.type = .addr := by
    cases v with
    | nil t => cases int
    | list items => cases int
    | scalar data => cases data <;> first | exact .inl rfl | exact .inr rfl | cases int
  unfold maxType
  rcases number leftInt with first | first <;> rcases number rightInt with second | second <;>
    simp [first, second, VarType.rank]

/-- Arithmetic traps exactly when it divides two numbers without a quotient. -/
theorem expMath_trap_iff (op : MathOp) (left right : Value) :
    expMath libc op (some left) (some right) = .error .trap ↔ OperandsTrap op left right := by
  obtain ⟨lowLeft, lowRight⟩ := maxType_rank left right
  unfold expMath OperandsTrap
  simp only []
  by_cases int : maxType left right = .int
  · rw [int] at lowLeft lowRight ⊢
    constructor
    · intro traps
      split at traps
      · rename_i l r leftMade rightMade
        obtain ⟨divides, m, n, rfl, rfl, noQuotient⟩ := (expMathInt_trap_iff op l r).mp traps
        have first := (asInt_iff lowLeft m).mp leftMade
        have second := (asInt_iff lowRight n).mp rightMade
        exact ⟨divides, (maxType_eq_int first second).mp int, m, n, first, second, noQuotient⟩
      · cases traps
    · rintro ⟨divides, -, m, n, first, second, noQuotient⟩
      rw [(asInt_iff lowLeft m).mpr first, (asInt_iff lowRight n).mpr second]
      exact (expMathInt_trap_iff op _ _).mpr ⟨divides, m, n, rfl, rfl, noQuotient⟩
  · constructor
    · intro traps
      split at traps
      · split at traps
        · rename_i isInt
          exact (int isInt).elim
        · unfold expMathFloat at traps
          repeat' split at traps
          all_goals cases traps
        · unfold expMathString at traps
          simp only [] at traps
          split at traps
          all_goals cases traps
        · cases traps
      · cases traps
    · rintro ⟨-, either, m, n, first, second, -⟩
      exact (int ((maxType_eq_int first second).mpr either)).elim

end Arithmetic

/-! ## Other operators and functions -/

section Others
variable {libc : Libc}

theorem varCompare_no_trap (left right : Value) : varCompare libc left right ≠ .error .trap := by
  unfold varCompare
  simp only []
  split
  · unfold compareData
    split <;> simp
  · simp

theorem expCompare_no_trap (op : CompareOp) (left right : Option Value) :
    expCompare libc op left right ≠ .error .trap := by
  intro traps
  unfold expCompare at traps
  split at traps
  · rename_i l r
    split at traps
    · cases traps
    · split at traps
      · rename_i faulted
        cases traps
        exact varCompare_no_trap l r faulted
      · cases traps
      · split at traps <;> cases traps
  · cases traps

theorem expEvalRegex_no_trap (negated : Bool) (left right : Option Value) :
    expEvalRegex libc negated left right ≠ .error .trap := by
  intro traps
  unfold expEvalRegex at traps
  repeat' split at traps
  all_goals cases traps

theorem inLoop_no_trap (needle : Value) (items : List (Option Value)) : ∀ cmp : Int,
    inLoop libc needle items cmp ≠ .error .trap := by
  induction items with
  | nil => intro cmp; simp [inLoop]
  | cons item rest ih =>
      intro cmp
      cases item with
      | none => simp [inLoop]
      | some v =>
          intro traps
          unfold inLoop at traps
          split at traps
          · rename_i faulted
            cases traps
            exact varCompare_no_trap needle v faulted
          · split at traps
            · cases traps
            · exact ih _ traps

theorem expEvalIn_no_trap (stack : Int) (needle haystack : Option Value) :
    expEvalIn libc stack needle haystack ≠ .error .trap := by
  intro traps
  unfold expEvalIn at traps
  split at traps
  · split at traps
    · cases traps
    · split at traps
      · exact inLoop_no_trap _ _ _ (map_trap_iff.mp traps)
      · cases traps
  · cases traps

theorem function_no_trap (f : Builtin) (args : Option Obj) (w : World) :
    expFunction libc f args w ≠ .error .trap := by
  intro traps
  unfold expFunction at traps
  split at traps
  · rename_i faulted
    cases traps
    cases functionArgs_error faulted
  · split at traps
    · have complex := map_trap_iff.mp traps
      unfold functionComplex at complex
      repeat' split at complex
      all_goals cases complex
    · split at traps
      · split at traps
        · cases traps
        · unfold functionSimple at traps
          repeat' split at traps
          all_goals cases traps
      · cases traps

end Others

/-! ## Runs -/

/-- An operator traps exactly when it is a division without a quotient. -/
theorem operation_trap_iff {libc : Libc} (stack : Int) (op : Operation) (left right : Option Obj)
    (w : World) :
    expOperation libc stack op left right w = .error .trap ↔ Traps (.operation op left right) w := by
  unfold expOperation
  cases op with
  | compare op =>
      simp only [Traps, iff_false]
      exact fun traps => expCompare_no_trap op _ _ (map_trap_iff.mp traps)
  | regex negated =>
      simp only [Traps, iff_false]
      exact fun traps => expEvalRegex_no_trap negated _ _ (map_trap_iff.mp traps)
  | isIn =>
      simp only [Traps, iff_false]
      exact fun traps => expEvalIn_no_trap stack _ _ (map_trap_iff.mp traps)
  | math op =>
      cases left with
      | none => cases op <;> simp [Traps, expMath, Except.map]
      | some l =>
          cases right with
          | none => cases op <;> simp [Traps, expMath, Except.map]
          | some r =>
              have math (op : MathOp) :
                  (expMath libc op (some (l.value w)) (some (r.value w))).map
                      (fun v => (v.map Obj.temp, w)) = .error .trap ↔
                    OperandsTrap op (l.value w) (r.value w) :=
                map_trap_iff.trans (expMath_trap_iff op _ _)
              cases op with
              | plus => simpa [Traps] using math .plus
              | minus => simpa [Traps] using math .minus
              | times => simpa [Traps] using math .times
              | mod => simpa [Traps] using math .mod
              | div =>
                  simp only [Option.map_some, Traps, true_and]
                  by_cases masks : isPrefix (some (l.value w)) (some (r.value w)) = true
                  · rw [if_pos masks]
                    simp only [isPrefix, Bool.and_eq_true, decide_eq_true_eq] at masks
                    simp only [masks.1, not_true, and_false, iff_false]
                    unfold expAddrPrefix
                    split <;> simp
                  · rw [if_neg masks, math]
                    refine ⟨fun traps => ⟨traps, ?_⟩, And.left⟩
                    intro address
                    obtain ⟨-, either, -⟩ := traps
                    have number := either.resolve_left (by rw [address]; decide)
                    exact masks (by simp [isPrefix, address, number])

theorem step_trap_iff (env : Env) (c : Command) (w : World) :
    step env c w = .error .trap ↔ Traps c w := by
  cases c with
  | operation op left right => exact operation_trap_iff env.stack op left right w
  | function f args =>
      simp only [Traps, iff_false]
      exact function_no_trap f args w
  | visit e => simp [step, Traps]
  | symbol name => simp [step, Traps]
  | var name => simp [step, Traps]
  | stage => simp [step, Traps]
  | getsymval name => simp [step, Traps]
  | isSet name => simp [step, Traps]
  | assign name o => simp [step, Traps]
  | truth o => simp [step, Traps]
  | value o => simp [step, Traps]

/-- The evaluation of an expression never traps exactly when it reaches no
division without a quotient. -/
theorem arithmetic_never_traps_iff (env : Env) (e : Exp) (w : World) :
    ((expEval e).run (step env) w).result ≠ .error .trap ↔
      ∀ c v, (c, v) ∈ ((expEval e).run (step env) w).trace → ¬ Traps c v := by
  rw [ne_eq, Prog.run_error_iff]
  simp only [step_trap_iff, not_exists, not_and]

/-- `1 / 0`, and the smallest number modulo -1. -/
theorem division_by_zero_traps :
    ((expEval (.operation (.math .div) (.constant 0) (.constant 1))).run (step plainEnv)
      (plainWorld [.int 1, .int 0])).result = .error .trap ∧
    ((expEval (.operation (.math .mod) (.constant 0) (.constant 1))).run (step plainEnv)
      (plainWorld [.int longMin, .int (-1)])).result = .error .trap :=
  ⟨rfl, rfl⟩

end Mopher
