import Mopher.Eval.Kleene
import Mopher.Eval.NullRead

/-!
# Null operands of arithmetic and comparisons

The manual says that an arithmetic or relational operation with a null operand
is null.  Comparisons check for it before anything else.  Arithmetic first makes
both operands one type and leaves the check to the function of that type:
numbers check, strings write `(null)`, the other types have no arithmetic, and
an address in front of `/` is masked without a check.  `KeepsNull` says when
null gets through all of that.
-/

set_option autoImplicit false

namespace Mopher

/-- The types of operands that the manual describes. -/
def VarType.isOperand : VarType → Bool
  | .int => true
  | .float => true
  | .string => true
  | .addr => true
  | .blob => true
  | _ => false

/-- `+`, `-`, `*`, `/`, `%` and the comparisons. -/
def Operation.isStrict : Operation → Bool
  | .compare _ => true
  | .math _ => true
  | _ => false

/-- An operand that has data can be made a number of this type. -/
def Numeric (type : VarType) (v : Value) : Prop :=
  match type, v with
  | .int, .scalar (.addr a) => utilAddrtoint a ≠ -1
  | .float, .scalar (.addr _) => False
  | .int, _ => True
  | .float, _ => True
  | _, _ => False

/-- Both operands can be made numbers of the larger type, and it is not an
address with a prefix length. -/
def MathKeepsNull (op : MathOp) (left right : Value) : Prop :=
  Numeric (maxType left right) left ∧ Numeric (maxType left right) right ∧
    ¬ (op = .div ∧ left.type = .addr ∧ right.type = .int)

def KeepsNull (op : Operation) (left right : Value) : Prop :=
  match op with
  | .compare _ => True
  | .math op => MathKeepsNull op left right
  | _ => False

/-- A result of `exp_eval_operation` is a value without data. -/
def ReturnsNull (result : Except Fault (Option Obj × World)) : Prop :=
  ∃ o w, result = .ok (some o, w) ∧ (o.value w).isNull = true

/-! ## The functions of each type -/

section Operators
variable {libc : Libc}

/-- The same for an operation that makes a new variable. -/
theorem returnsNull_pack_iff (result : Except Fault (Option Value)) (w : World) :
    ReturnsNull (result.map fun v => (v.map Obj.temp, w)) ↔
      ∃ v, result = .ok (some v) ∧ v.isNull = true := by
  constructor
  · rintro ⟨o, w', same, null⟩
    cases result with
    | error f => cases same
    | ok v =>
        cases v with
        | none => cases same
        | some v => cases same; exact ⟨v, rfl, null⟩
  · rintro ⟨v, rfl, null⟩
    exact ⟨.temp v, w, rfl, null⟩

theorem expCompare_null (op : CompareOp) {l r : Value} (null : l.isNull = true ∨ r.isNull = true) :
    expCompare libc op (some l) (some r) = .ok (some expEmpty) := by
  have either : (l.isNull || r.isNull) = true := by
    rw [Bool.or_eq_true]
    exact null
  unfold expCompare
  simp only [either, if_true]

theorem expMathInt_null (op : MathOp) {l r : Value} (null : l.isNull = true ∨ r.isNull = true) :
    expMathInt op l r = .ok (some expEmpty) := by
  unfold expMathInt
  split
  · rcases null with null | null
    · cases null
    · cases null
  · rfl

theorem expMathFloat_null (op : MathOp) {l r : Value} (null : l.isNull = true ∨ r.isNull = true) :
    expMathFloat libc op l r = .ok (some expEmpty) := by
  unfold expMathFloat
  split
  · rcases null with null | null
    · cases null
    · cases null
  · rfl

/-- Text is joined whether it is there or not. -/
theorem expMathString_not_null (op : MathOp) (l r : Value) :
    ¬ ∃ v, expMathString op l r = .ok (some v) ∧ v.isNull = true := by
  rintro ⟨v, same, null⟩
  unfold expMathString at same
  cases op with
  | plus =>
      simp only [Except.ok.injEq] at same
      split at same
      · cases same
      · cases same
        cases null
  | minus => cases same
  | times => cases same
  | div => cases same
  | mod => cases same

/-! ## Both operands made one type -/

/-- An operand of at most this type can be made a number of it. -/
theorem castable_number_iff {type : VarType} {v : Value} (number : type = .int ∨ type = .float)
    (operand : v.type.isOperand = true) (smaller : v.type.rank ≤ type.rank) :
    Castable libc type v ↔ Numeric type v := by
  unfold Castable
  cases v with
  | nil t =>
      have castable : Castable libc type (.nil t) := castable_of_null rfl
      rcases number with rfl | rfl
      · exact iff_of_true castable trivial
      · exact iff_of_true castable trivial
  | list items => cases operand
  | scalar data =>
      rcases number with rfl | rfl
      · cases data with
        | addr a => simp [Scalar.type, varCastCopy, varAsInt, Numeric]
        | int n => simp [Scalar.type, Numeric]
        | float p => simp [Scalar.type, VarType.rank] at smaller
        | string s => simp [Scalar.type, VarType.rank] at smaller
        | blob b => simp [Scalar.type, VarType.rank] at smaller
        | table n => cases operand
        | pointer p => cases operand
      · cases data with
        | addr a => simp [Scalar.type, varCastCopy, varAsFloat, Numeric]
        | int n => simp [Scalar.type, varCastCopy, varAsFloat, Numeric]
        | float p => simp [Scalar.type, Numeric]
        | string s => simp [Scalar.type, VarType.rank] at smaller
        | blob b => simp [Scalar.type, VarType.rank] at smaller
        | table n => cases operand
        | pointer p => cases operand

theorem rank_left_le_maxType (l r : Value) : l.type.rank ≤ (maxType l r).rank := by
  unfold maxType
  split <;> omega

theorem rank_right_le_maxType (l r : Value) : r.type.rank ≤ (maxType l r).rank := by
  unfold maxType
  split <;> omega

/-- No arithmetic on types other than numbers gives null. -/
theorem numeric_number {type : VarType} {v : Value} (numeric : Numeric type v) :
    type = .int ∨ type = .float := by
  cases type with
  | int => exact .inl rfl
  | float => exact .inr rfl
  | null => cases numeric
  | table => cases numeric
  | list => cases numeric
  | addr => cases numeric
  | pointer => cases numeric
  | string => cases numeric
  | blob => cases numeric
  | other code => cases numeric

/-- The `switch` of `exp_eval_operation`, with both sides of one type. -/
def mathOfType (libc : Libc) (type : VarType) (op : MathOp) (l r : Value) :
    Except Fault (Option Value) :=
  match type with
  | .int => expMathInt op l r
  | .float => expMathFloat libc op l r
  | .string => expMathString op l r
  | _ => .ok none

theorem mathOfType_null_iff (type : VarType) (op : MathOp) {l r : Value}
    (null : l.isNull = true ∨ r.isNull = true) :
    (∃ v, mathOfType libc type op l r = .ok (some v) ∧ v.isNull = true) ↔
      type = .int ∨ type = .float := by
  cases type with
  | int =>
      refine iff_of_true ⟨expEmpty, ?_, rfl⟩ (.inl rfl)
      exact expMathInt_null op null
  | float =>
      refine iff_of_true ⟨expEmpty, ?_, rfl⟩ (.inr rfl)
      exact expMathFloat_null op null
  | string => exact iff_of_false (expMathString_not_null op l r) (by simp)
  | null => simp [mathOfType]
  | table => simp [mathOfType]
  | list => simp [mathOfType]
  | addr => simp [mathOfType]
  | pointer => simp [mathOfType]
  | blob => simp [mathOfType]
  | other code => simp [mathOfType]

theorem expMath_null_iff (op : MathOp) {l r : Value} (left : l.type.isOperand = true)
    (right : r.type.isOperand = true) (null : l.isNull = true ∨ r.isNull = true) :
    (∃ v, expMath libc op (some l) (some r) = .ok (some v) ∧ v.isNull = true) ↔
      Numeric (maxType l r) l ∧ Numeric (maxType l r) r := by
  have castable (number : maxType l r = .int ∨ maxType l r = .float) :
      (Castable libc (maxType l r) l ↔ Numeric (maxType l r) l) ∧
        (Castable libc (maxType l r) r ↔ Numeric (maxType l r) r) :=
    ⟨castable_number_iff number left (rank_left_le_maxType l r),
      castable_number_iff number right (rank_right_le_maxType l r)⟩
  have unfolded : expMath libc op (some l) (some r) =
      ((if l.type = maxType l r then some l else varCastCopy libc (maxType l r) l).elim (.ok none)
        fun u => (if r.type = maxType l r then some r else varCastCopy libc (maxType l r) r).elim
          (.ok none) fun v => mathOfType libc (maxType l r) op u v) := by
    unfold expMath
    simp only []
    cases (if l.type = maxType l r then some l else varCastCopy libc (maxType l r) l) with
    | none => rfl
    | some u =>
        cases (if r.type = maxType l r then some r else varCastCopy libc (maxType l r) r) with
        | none => rfl
        | some v => rfl
  rw [unfolded]
  cases first : (if l.type = maxType l r then some l else varCastCopy libc (maxType l r) l) with
  | none =>
      have uncast : ¬ Castable libc (maxType l r) l := by
        rw [← asType_isSome_iff, first]
        simp
      refine iff_of_false (by simp) fun both => uncast ?_
      exact (castable (numeric_number both.1)).1.mpr both.1
  | some u =>
      have leftCast : Castable libc (maxType l r) l := by
        rw [← asType_isSome_iff, first]
        rfl
      cases second : (if r.type = maxType l r then some r else varCastCopy libc (maxType l r) r) with
      | none =>
          have uncast : ¬ Castable libc (maxType l r) r := by
            rw [← asType_isSome_iff, second]
            simp
          refine iff_of_false (by simp) fun both => uncast ?_
          exact (castable (numeric_number both.2)).2.mpr both.2
      | some v =>
          have rightCast : Castable libc (maxType l r) r := by
            rw [← asType_isSome_iff, second]
            rfl
          simp only [Option.elim_some]
          rw [mathOfType_null_iff]
          · constructor
            · intro number
              exact ⟨(castable number).1.mp leftCast, (castable number).2.mp rightCast⟩
            · intro both
              exact numeric_number both.1
          · rw [(asType_kind first).2, (asType_kind second).2]
            exact null

/-! ## The operator -/

/-- An operator that gets a null operand returns null exactly when null gets
through. -/
theorem expOperation_null_iff (stack : Int) {op : Operation} (strict : op.isStrict = true)
    {left right : Obj} {w : World} (leftType : (left.value w).type.isOperand = true)
    (rightType : (right.value w).type.isOperand = true)
    (null : (left.value w).isNull = true ∨ (right.value w).isNull = true) :
    ReturnsNull (expOperation libc stack op (some left) (some right) w) ↔
      KeepsNull op (left.value w) (right.value w) := by
  cases op with
  | regex negated => cases strict
  | isIn => cases strict
  | compare op =>
      refine iff_of_true ?_ trivial
      unfold expOperation
      rw [returnsNull_pack_iff]
      exact ⟨expEmpty, expCompare_null op null, rfl⟩
  | math op =>
      have packed (notPrefix : ¬ (op = .div ∧ (left.value w).type = .addr ∧
            (right.value w).type = .int)) :
          ReturnsNull ((expMath libc op (some (left.value w)) (some (right.value w))).map
            fun v => (v.map Obj.temp, w)) ↔ KeepsNull (.math op) (left.value w) (right.value w) := by
        rw [returnsNull_pack_iff, expMath_null_iff op leftType rightType null]
        unfold KeepsNull MathKeepsNull
        simp only [notPrefix, not_false_eq_true, and_true]
      cases op with
      | plus => exact packed (by simp)
      | minus => exact packed (by simp)
      | times => exact packed (by simp)
      | mod => exact packed (by simp)
      | div =>
          unfold expOperation
          simp only [Option.map_some]
          by_cases typed : isPrefix (some (left.value w)) (some (right.value w)) = true
          · rw [if_pos typed]
            have types : (left.value w).type = .addr ∧ (right.value w).type = .int := by
              simpa [isPrefix] using typed
            refine iff_of_false ?_ fun keeps => keeps.2.2 ⟨rfl, types⟩
            rw [(expAddrPrefix_nullRead_iff typed).mpr ⟨types.1, types.2, null⟩]
            rintro ⟨o, w', same, _⟩
            cases same
          · rw [if_neg typed]
            refine packed fun types => typed ?_
            simpa [isPrefix] using types.2

end Operators

/-! ## Whole expressions -/

/-- The evaluation of an expression returns a value without data. -/
def EvaluatesToNull (env : Env) (e : Exp) (w : World) : Prop :=
  ReturnsNull ((expEval e).run (step env) w).result

/-- Both operands were evaluated and one of them is null: the operation is null
exactly when it is a comparison, or both operands can be made numbers of the
larger type and it is not an address with a prefix length. -/
theorem null_operand_gives_null_iff (env : Env) {op : Operation} (strict : op.isStrict = true)
    {left right : Exp} {w w₁ w₂ : World} {l r : Obj} (first : operand env left w = some (l, w₁))
    (second : operand env right w₁ = some (r, w₂))
    (leftType : (l.value w₂).type.isOperand = true) (rightType : (r.value w₂).type.isOperand = true)
    (null : (l.value w₂).isNull = true ∨ (r.value w₂).isNull = true) :
    EvaluatesToNull env (.operation op left right) w ↔ KeepsNull op (l.value w₂) (r.value w₂) := by
  have applied : ((expEval (.operation op left right)).run (step env) w).result =
      expOperation env.libc env.stack op (some l) (some r) w₂ := by
    rw [expEval, run_entered, expApply, Prog.run_bind_ok _ (operand_some first),
      Prog.run_bind_ok _ (operand_some second), command, Prog.run_issue]
    rfl
  unfold EvaluatesToNull
  rw [applied]
  exact expOperation_null_iff env.stack strict leftType rightType null

/-- An unset number plus one. -/
theorem null_plus_one_is_null :
    EvaluatesToNull plainEnv (.operation (.math .plus) (.constant 0) (.constant 1))
      (plainWorld [.nil .int, .int 1]) := by
  have left : operand plainEnv (.constant 0) (plainWorld [.nil .int, .int 1]) =
      some (.stored (.constant 0), plainWorld [.nil .int, .int 1]) := rfl
  have right : operand plainEnv (.constant 1) (plainWorld [.nil .int, .int 1]) =
      some (.stored (.constant 1), plainWorld [.nil .int, .int 1]) := rfl
  apply (null_operand_gives_null_iff plainEnv rfl left right rfl rfl (.inl rfl)).mpr
  exact ⟨trivial, trivial, by simp⟩

/-- The null string plus `"a"` is the text `(null)a`. -/
theorem null_string_is_joined :
    (World.read (plainWorld [.nil .string, .string (cstr "a")]) (.constant 0)).isNull = true ∧
    ((expEval (.operation (.math .plus) (.constant 0) (.constant 1))).run (step plainEnv)
        (plainWorld [.nil .string, .string (cstr "a")])).result =
      .ok (some (.temp (.string (cstr "(null)a"))),
        plainWorld [.nil .string, .string (cstr "a")]) ∧
    ¬ EvaluatesToNull plainEnv (.operation (.math .plus) (.constant 0) (.constant 1))
      (plainWorld [.nil .string, .string (cstr "a")]) := by
  refine ⟨rfl, rfl, ?_⟩
  rintro ⟨o, w, same, null⟩
  cases same
  cases null

end Mopher
