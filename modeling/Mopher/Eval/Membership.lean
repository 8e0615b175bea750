import Mopher.Eval.Traps

/-!
# Membership in a list

`exp_eval_in` compares the needle with one item after the other.  A comparison that
fails is logged, and then its result is used: the variable holds what the item in
front left, which is not 0, or in front of the first item what is on the stack.  A
null item is compared like any other, and a `NULL` pointer ends the list.
-/

set_option autoImplicit false

namespace Mopher

section Statement
variable (libc : Libc) (needle : Value)

/-- The item is not null and compares equal. -/
def isMatch : Option Value → Bool
  | none => false
  | some item =>
      !item.isNull &&
        match varCompare libc needle item with
        | .ok (some cmp) => cmp == 0
        | _ => false

/-- What `in` should say of a list. -/
def isMember (items : List (Option Value)) : Bool := items.any (isMatch libc needle)

/-- Up to the first match no item is null where its data are read, and a `NULL`
pointer has no match behind it. -/
def ReadsToMatch : List (Option Value) → Prop
  | [] => True
  | none :: rest => isMember libc needle rest = false
  | some item :: rest =>
      isMatch libc needle (some item) = true ∨
        (¬ ItemReadsNull libc needle item ∧ ReadsToMatch rest)

/-- The first comparison fails, and what it should have overwritten is 0. -/
def StartsEqual (stack : Int) (items : List (Option Value)) : Prop :=
  stack = 0 ∧ ∃ item rest, items = some item :: rest ∧ varCompare libc needle item = .ok none

end Statement

section Loop
variable {libc : Libc} {needle : Value}

/-- A null side of a comparison never counts as equal. -/
theorem compareData_null {type : VarType} {left right : Value} (leftType : left.type = type)
    (present : left.isNull = false) (null : right.isNull = true) :
    compareData libc type left right ≠ .ok (some 0) := by
  cases right with
  | list items => cases null
  | scalar data => cases null
  | nil t =>
      subst leftType
      cases left with
      | nil t => cases present
      | list items => simp [compareData]
      | scalar data =>
          cases data <;> simp [compareData, Scalar.type, Value.addr?, utilAddrcmp]

theorem present_of_equal {item : Value} (present : needle.isNull = false)
    (equal : varCompare libc needle item = .ok (some 0)) : item.isNull = false := by
  unfold varCompare at equal
  simp only [] at equal
  split at equal
  · rename_i l r leftMade rightMade
    obtain ⟨leftType, leftNull⟩ := asType_kind leftMade
    obtain ⟨_, rightNull⟩ := asType_kind rightMade
    rw [← rightNull, ← Bool.not_eq_true]
    intro null
    exact compareData_null leftType (leftNull.trans present) null equal
  · cases equal

theorem isMatch_iff {item : Value} (present : needle.isNull = false) :
    isMatch libc needle (some item) = true ↔ varCompare libc needle item = .ok (some 0) := by
  constructor
  · intro found
    simp only [isMatch, Bool.and_eq_true] at found
    split at found
    · rename_i cmp compared
      rw [compared, beq_iff_eq.mp found.2]
    · cases found.2
  · intro equal
    simp [isMatch, equal, present_of_equal present equal]

/-- The loop after a comparison that did not find the item equal. -/
theorem inLoop_right_iff (present : needle.isNull = false) (items : List (Option Value)) :
    ∀ cmp : Int, cmp ≠ 0 →
      (inLoop libc needle items cmp = .ok (isMember libc needle items) ↔
        ReadsToMatch libc needle items) := by
  induction items with
  | nil => intro cmp _; simp [inLoop, isMember, ReadsToMatch]
  | cons item rest ih =>
      intro cmp notZero
      cases item with
      | none =>
          simp only [inLoop, isMember, ReadsToMatch, List.any_cons, isMatch, Bool.false_or,
            Except.ok.injEq]
          exact eq_comm
      | some item =>
          have reads := @itemReadsNull_iff libc needle item present
          have equal : isMatch libc needle (some item) = true ↔
              varCompare libc needle item = .ok (some 0) := isMatch_iff present
          simp only [inLoop, ReadsToMatch, ← reads]
          cases compared : varCompare libc needle item with
          | error fault =>
              have null : fault = .nullRead := by
                cases fault with
                | nullRead => rfl
                | trap => exact (varCompare_no_trap needle item compared).elim
              rw [compared] at equal
              simp [null, equal]
          | ok result =>
              rw [compared] at equal
              cases result with
              | none =>
                  have other : isMatch libc needle (some item) = false := by
                    rw [Bool.eq_false_iff, ne_eq, equal]
                    simp
                  simp only [Option.getD_none, if_neg notZero, isMember, List.any_cons, other,
                    Bool.false_or, Bool.false_eq_true, false_or, reduceCtorEq, not_false_eq_true,
                    true_and]
                  exact ih cmp notZero
              | some number =>
                  simp only [Option.getD_some]
                  by_cases zero : number = 0
                  · subst zero
                    have same := equal.mpr rfl
                    simp [isMember, same]
                  · have other : isMatch libc needle (some item) = false := by
                      rw [Bool.eq_false_iff, ne_eq, equal]
                      simp [zero]
                    simp only [if_neg zero, isMember, List.any_cons, other, Bool.false_or,
                      Bool.false_eq_true, false_or, reduceCtorEq, not_false_eq_true, true_and]
                    exact ih number zero

/-- The loop where a first comparison that fails finds 0. -/
theorem inLoop_startsEqual {stack : Int} {items : List (Option Value)}
    (starts : StartsEqual libc needle stack items) : inLoop libc needle items stack = .ok true := by
  obtain ⟨rfl, item, rest, rfl, failed⟩ := starts
  simp [inLoop, failed]

/-- Elsewhere the number that the loop starts with has no influence. -/
theorem inLoop_stack {stack : Int} {items : List (Option Value)}
    (fresh : ¬ StartsEqual libc needle stack items) :
    ∃ cmp : Int, cmp ≠ 0 ∧ inLoop libc needle items stack = inLoop libc needle items cmp := by
  by_cases zero : stack = 0
  · refine ⟨1, by decide, ?_⟩
    cases items with
    | nil => rfl
    | cons item rest =>
        cases item with
        | none => rfl
        | some item =>
            simp only [inLoop]
            cases compared : varCompare libc needle item with
            | error fault => rfl
            | ok result =>
                cases result with
                | none => exact (fresh ⟨zero, item, rest, rfl, compared⟩).elim
                | some number => rfl
  · exact ⟨stack, zero, rfl⟩

/-- `in` says whether an item is equal exactly when no null item and no `NULL` pointer
is in the way, and the first comparison, should it fail, does not find a 0; where it
does, there has to be an equal item after all. -/
theorem membership_iff (present : needle.isNull = false) (stack : Int) (items : List (Option Value)) :
    expEvalIn libc stack (some needle) (some (.list items)) =
        .ok (some (expBoolean (isMember libc needle items))) ↔
      (StartsEqual libc needle stack items → isMember libc needle items = true) ∧
        (¬ StartsEqual libc needle stack items → ReadsToMatch libc needle items) := by
  have boolean {result : Except Fault Bool} {b : Bool} :
      (result.map fun found => some (expBoolean found)) = .ok (some (expBoolean b)) ↔
        result = .ok b := by
    cases result with
    | error fault => simp [Except.map]
    | ok found => cases found <;> cases b <;> simp [Except.map, expBoolean, expTrue, expFalse]
  have evaluated : expEvalIn libc stack (some needle) (some (.list items)) =
      (inLoop libc needle items stack).map fun found => some (expBoolean found) := by
    simp [expEvalIn, present]
  rw [evaluated, boolean]
  by_cases starts : StartsEqual libc needle stack items
  · rw [inLoop_startsEqual starts]
    simp only [starts, Except.ok.injEq, true_imp_iff, not_true, false_imp_iff, and_true]
    exact eq_comm
  · obtain ⟨cmp, notZero, same⟩ := inLoop_stack starts
    rw [same, inLoop_right_iff present items cmp notZero]
    simp [starts]

end Loop

/-- A string in front of an equal number is compared and passed by. -/
theorem number_is_member :
    expEvalIn plainLibc 0 (some (.int 3)) (some (.list [some (.string (cstr "a")), some (.int 3)])) =
      .ok (some (expBoolean (isMember plainLibc (.int 3)
        [some (.string (cstr "a")), some (.int 3)]))) := by
  apply (membership_iff rfl 0 _).mpr
  constructor
  · intro _
    rfl
  · intro _
    refine .inr ⟨?_, .inl rfl⟩
    rintro ⟨null, -⟩
    cases null

/-- The number 1 is no address: the comparison with `::1` fails, and the 0 on the stack
makes the number a member.  With a variable that was never set there is no answer. -/
theorem failed_comparison_is_a_match :
    varCompare plainLibc (.int 1) (.scalar (.addr (.inet6 ⟨List.replicate 15 0 ++ [1], rfl⟩))) = .ok none ∧
    expEvalIn plainLibc 0 (some (.int 1))
      (some (.list [some (.scalar (.addr (.inet6 ⟨List.replicate 15 0 ++ [1], rfl⟩)))])) =
        .ok (some expTrue) ∧
    isMember plainLibc (.int 1)
      [some (.scalar (.addr (.inet6 ⟨List.replicate 15 0 ++ [1], rfl⟩)))] = false ∧
    expEvalIn plainLibc 1 (some (.int 1)) (some (.list [some (.nil .int), some (.int 1)])) =
      .error .nullRead :=
  ⟨rfl, rfl, rfl, rfl⟩

end Mopher
