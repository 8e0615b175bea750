import Mopher.Lib.ThreeWay
import Mopher.Eval.NullRead

/-!
# Comparison as an order

`var_compare` makes both sides one type and compares them there.  Numbers, strings
and addresses are compared with -1, 0 or 1 for an answer, whatever the C library
answers.  Two blobs of one size are not: what `memcmp` returns is passed on, and
`exp_compare` knows only the three answers.
-/

set_option autoImplicit false

namespace Mopher

open ThreeWay

/-- A value that is not null, of one of the types that are compared. -/
def Value.isComparable : Value → Bool
  | .scalar (.int _) => true
  | .scalar (.string _) => true
  | .scalar (.addr _) => true
  | .scalar (.blob _) => true
  | _ => false

section Statement
variable (libc : Libc)

/-- The six operators after a comparison that succeeded. -/
def OperatorsAgree (left right : Value) : Prop :=
  ∃ lt eq gt : Bool, [lt, eq, gt].count true = 1 ∧
    expCompare libc .lt (some left) (some right) = .ok (some (expBoolean lt)) ∧
    expCompare libc .eq (some left) (some right) = .ok (some (expBoolean eq)) ∧
    expCompare libc .gt (some left) (some right) = .ok (some (expBoolean gt)) ∧
    expCompare libc .ne (some left) (some right) = .ok (some (expBoolean !eq)) ∧
    expCompare libc .le (some left) (some right) = .ok (some (expBoolean !gt)) ∧
    expCompare libc .ge (some left) (some right) = .ok (some (expBoolean !lt))

/-- The comparison fails both ways, or it succeeds both ways with opposite answers
that the operators understand. -/
def ComparesConsistently (left right : Value) : Prop :=
  (varCompare libc left right = .ok none ∧ varCompare libc right left = .ok none) ∨
    ∃ cmp, Answer cmp ∧ varCompare libc left right = .ok (some cmp) ∧
      varCompare libc right left = .ok (some (-cmp)) ∧
      OperatorsAgree libc left right ∧ OperatorsAgree libc right left

/-- The data of a value after a cast to `VT_BLOB`. -/
def blobBytes : Value → Bytes
  | .scalar (.int n) => littleEndian 8 (n % 2 ^ 64).toNat
  | .scalar (.string s) => s ++ [0]
  | .scalar (.addr a) => libc.sockaddrBytes a
  | .scalar (.blob b) => b
  | _ => []

/-- One side is a blob, both have one size, and `memcmp` answers neither -1, 0 nor 1. -/
def ByMemcmp (left right : Value) : Prop :=
  (left.type = .blob ∨ right.type = .blob) ∧
    (blobBytes libc left).length = (blobBytes libc right).length ∧
    ¬ (Answer (libc.memcmp (blobBytes libc left) (blobBytes libc right)) ∧
      Answer (libc.memcmp (blobBytes libc right) (blobBytes libc left)))

/-- What is documented of `memcmp`: of two blocks of one size the smaller is the one
with the smaller byte where they differ first. -/
def MemcmpOrders : Prop :=
  ∀ left right : Bytes, left.length = right.length →
    (libc.memcmp left right).sign = lexicographic ofLess left right

end Statement

/-! ## Comparisons of data -/

theorem strcmpSign_eq (left : Bytes) : ∀ right, strcmpSign left right = lexicographic ofLess left right := by
  induction left with
  | nil => intro right; cases right <;> rfl
  | cons a left ih =>
      intro right
      cases right with
      | nil => rfl
      | cons b right =>
          rw [strcmpSign, lexicographic, ih]
          by_cases less : a < b
          · simp [ofLess, less]
          · by_cases greater : b < a
            · simp [ofLess, less, greater]
            · simp [ofLess, less, greater]

theorem oriented_strcmpSign : Oriented strcmpSign := by
  have same : strcmpSign = lexicographic ofLess := by
    funext left right
    exact strcmpSign_eq left right
  rw [same]
  exact (oriented_ofLess fun _ _ less => UInt8.lt_asymm less).lexicographic

theorem oriented_address : Oriented (ofLess (α := BitVec 32)) :=
  oriented_ofLess fun _ _ less => BitVec.lt_asymm less

/-- Addresses of one family. -/
def sameFamilyCmp (left right : Addr) : Int :=
  match left, right with
  | .inet x, .inet y => ofLess x y
  | .inet6 x, .inet6 y => strcmpSign x.bytes y.bytes
  | _, _ => 0

theorem oriented_sameFamilyCmp : Oriented sameFamilyCmp where
  answer left right := by
    unfold sameFamilyCmp
    split
    · exact oriented_address.answer _ _
    · exact oriented_strcmpSign.answer _ _
    · exact .inr (.inl rfl)
  swap left right := by
    cases left with
    | inet x =>
        cases right with
        | inet y => exact oriented_address.swap x y
        | inet6 y => rfl
        | other f => rfl
    | inet6 x =>
        cases right with
        | inet y => rfl
        | inet6 y => exact oriented_strcmpSign.swap _ _
        | other f => rfl
    | other f => cases right <;> rfl

/-- Addresses are compared by their family first. -/
theorem utilAddrcmp_eq (left right : Addr) :
    utilAddrcmp (some left) (some right) =
      andThen (fun a b => ofLess a.family b.family) sameFamilyCmp left right := by
  unfold utilAddrcmp andThen
  simp only []
  rcases lt_trichotomy left.family right.family with less | same | greater
  · simp [ofLess, less]
  · simp only [same, lt_irrefl, if_false, ofLess, if_true]
    unfold sameFamilyCmp ofLess
    rfl
  · simp [ofLess, greater, greater.not_gt]

theorem oriented_utilAddrcmp : Oriented fun left right => utilAddrcmp (some left) (some right) := by
  simp only [utilAddrcmp_eq]
  exact ((oriented_ofLess fun _ _ less => Nat.lt_asymm less).comap Addr.family).andThen oriented_sameFamilyCmp

/-! ## Both sides of one type -/

section Types
variable {libc : Libc}

/-- One side of a comparison, made the larger type. -/
def asType (libc : Libc) (type : VarType) (v : Value) : Option Value :=
  if v.type = type then some v else varCastCopy libc type v

theorem varCompare_eq (libc : Libc) (left right : Value) :
    varCompare libc left right =
      match asType libc (maxType left right) left, asType libc (maxType left right) right with
      | some l, some r => compareData libc (maxType left right) l r
      | _, _ => .ok none := rfl

theorem Value.isComparable_type {v : Value} (comparable : v.isComparable = true) :
    v.isNull = false ∧ (v.type = .int ∨ v.type = .string ∨ v.type = .addr ∨ v.type = .blob) := by
  cases v with
  | nil t => cases comparable
  | list items => cases comparable
  | scalar data => cases data <;> simp [Value.isComparable, Scalar.type] at comparable ⊢

theorem maxType_comm {left right : Value} (leftComparable : left.isComparable = true)
    (rightComparable : right.isComparable = true) : maxType right left = maxType left right := by
  unfold maxType
  rcases (Value.isComparable_type leftComparable).2 with l | l | l | l <;>
    rcases (Value.isComparable_type rightComparable).2 with r | r | r | r <;>
      simp [l, r, VarType.rank]

theorem maxType_eq_blob {left right : Value} (leftComparable : left.isComparable = true)
    (rightComparable : right.isComparable = true) :
    maxType left right = .blob ↔ left.type = .blob ∨ right.type = .blob := by
  unfold maxType
  rcases (Value.isComparable_type leftComparable).2 with l | l | l | l <;>
    rcases (Value.isComparable_type rightComparable).2 with r | r | r | r <;>
      simp [l, r, VarType.rank]

theorem asType_blob {v : Value} (comparable : v.isComparable = true) :
    asType libc .blob v = some (.scalar (.blob (blobBytes libc v))) := by
  cases v with
  | nil t => cases comparable
  | list items => cases comparable
  | scalar data =>
      cases data with
      | int n => rfl
      | string s => rfl
      | addr a => rfl
      | blob b => rfl
      | table records => cases comparable
      | float pattern => cases comparable
      | pointer address => cases comparable

/-- Two numbers, strings or addresses. -/
theorem compareData_turned (libc : Libc) {type : VarType} (ordered : type = .int ∨ type = .string ∨ type = .addr)
    {left right : Value} (leftType : left.type = type) (rightType : right.type = type)
    (leftData : left.isNull = false) (rightData : right.isNull = false) :
    ∃ cmp, Answer cmp ∧ compareData libc type left right = .ok (some cmp) ∧
      compareData libc type right left = .ok (some (-cmp)) := by
  have opposite {α : Type} {cmp : α → α → Int} (oriented : Oriented cmp) (a b : α)
      (first : compareData libc type left right = .ok (some (cmp a b)))
      (second : compareData libc type right left = .ok (some (cmp b a))) :
      ∃ cmp, Answer cmp ∧ compareData libc type left right = .ok (some cmp) ∧
        compareData libc type right left = .ok (some (-cmp)) := by
    rw [oriented.swap a b] at second
    exact ⟨cmp a b, oriented.answer a b, first, second⟩
  rcases ordered with rfl | rfl | rfl
  · rcases type_int leftType with rfl | ⟨m, rfl⟩
    · cases leftData
    rcases type_int rightType with rfl | ⟨n, rfl⟩
    · cases rightData
    exact opposite (oriented_ofLess fun _ _ less => Int.lt_asymm less) m n rfl rfl
  · rcases type_string leftType with rfl | ⟨s, rfl⟩
    · cases leftData
    rcases type_string rightType with rfl | ⟨t, rfl⟩
    · cases rightData
    exact opposite oriented_strcmpSign s t rfl rfl
  · rcases type_addr leftType with rfl | ⟨a, rfl⟩
    · cases leftData
    rcases type_addr rightType with rfl | ⟨b, rfl⟩
    · cases rightData
    exact opposite oriented_utilAddrcmp a b rfl rfl

/-- After an answer the six operators agree. -/
theorem operatorsAgree {left right : Value} (leftData : left.isNull = false)
    (rightData : right.isNull = false) {cmp : Int} (answer : Answer cmp)
    (compared : varCompare libc left right = .ok (some cmp)) : OperatorsAgree libc left right := by
  have operator (op : CompareOp) : expCompare libc op (some left) (some right) =
      .ok (some (expBoolean (compareHolds op cmp))) := by
    unfold expCompare
    simp only [leftData, rightData, Bool.or_self, Bool.false_eq_true, if_false, compared]
    exact if_pos answer
  refine ⟨compareHolds .lt cmp, compareHolds .eq cmp, compareHolds .gt cmp, ?_, operator .lt,
    operator .eq, operator .gt, ?_, ?_, ?_⟩
  · rcases answer with rfl | rfl | rfl <;> rfl
  · rw [operator .ne]
    rcases answer with rfl | rfl | rfl <;> rfl
  · rw [operator .le]
    rcases answer with rfl | rfl | rfl <;> rfl
  · rw [operator .ge]
    rcases answer with rfl | rfl | rfl <;> rfl

end Types

/-! ## All values -/

section Values
variable {libc : Libc} {left right : Value}

theorem consistent_of_answer (leftComparable : left.isComparable = true)
    (rightComparable : right.isComparable = true) {cmp : Int} (answer : Answer cmp)
    (first : varCompare libc left right = .ok (some cmp))
    (second : varCompare libc right left = .ok (some (-cmp))) :
    ComparesConsistently libc left right := by
  have leftData := (Value.isComparable_type leftComparable).1
  have rightData := (Value.isComparable_type rightComparable).1
  exact .inr ⟨cmp, answer, first, second, operatorsAgree leftData rightData answer first,
    operatorsAgree rightData leftData answer.neg second⟩

/-- Numbers, strings and addresses are compared consistently. -/
theorem consistent_of_not_blob (leftComparable : left.isComparable = true)
    (rightComparable : right.isComparable = true) (notBlob : maxType left right ≠ .blob) :
    ComparesConsistently libc left right := by
  obtain ⟨leftData, leftTypes⟩ := Value.isComparable_type leftComparable
  obtain ⟨rightData, rightTypes⟩ := Value.isComparable_type rightComparable
  have same := maxType_comm leftComparable rightComparable
  have ordered : maxType left right = .int ∨ maxType left right = .string ∨
      maxType left right = .addr := by
    have either : maxType left right = left.type ∨ maxType left right = right.type := by
      unfold maxType
      split
      · exact .inl rfl
      · exact .inr rfl
    rcases either with type | type <;> rw [type] at notBlob ⊢
    · rcases leftTypes with t | t | t | t <;> simp [t] at notBlob ⊢
    · rcases rightTypes with t | t | t | t <;> simp [t] at notBlob ⊢
  have turned := varCompare_eq libc right left
  rw [same] at turned
  have straight := varCompare_eq libc left right
  cases leftMade : asType libc (maxType left right) left with
  | none =>
      rw [leftMade] at straight turned
      refine .inl ⟨straight, ?_⟩
      rw [turned]
      cases asType libc (maxType left right) right <;> rfl
  | some l =>
      cases rightMade : asType libc (maxType left right) right with
      | none =>
          rw [leftMade, rightMade] at straight turned
          exact .inl ⟨straight, turned⟩
      | some r =>
          rw [leftMade, rightMade] at straight turned
          obtain ⟨lType, lNull⟩ := asType_kind leftMade
          obtain ⟨rType, rNull⟩ := asType_kind rightMade
          obtain ⟨cmp, answer, first, second⟩ := compareData_turned libc ordered lType rType
            (lNull.trans leftData) (rNull.trans rightData)
          exact consistent_of_answer leftComparable rightComparable answer (straight.trans first)
            (turned.trans second)

/-- Blobs are compared by their size, then by `memcmp`. -/
theorem varCompare_blob (libc : Libc) (leftComparable : left.isComparable = true)
    (rightComparable : right.isComparable = true) (blob : maxType left right = .blob) :
    varCompare libc left right =
      .ok (some (if (blobBytes libc left).length < (blobBytes libc right).length then -1
        else if (blobBytes libc right).length < (blobBytes libc left).length then 1
        else libc.memcmp (blobBytes libc left) (blobBytes libc right))) := by
  rw [varCompare_eq, blob, asType_blob leftComparable, asType_blob rightComparable]
  rfl

/-- Opposite signs of the answers of `memcmp`. -/
theorem memcmp_turned (orders : MemcmpOrders libc) {x y : Bytes} (same : x.length = y.length)
    (one : Answer (libc.memcmp x y)) (two : Answer (libc.memcmp y x)) :
    libc.memcmp y x = -libc.memcmp x y := by
  have signs : (libc.memcmp y x).sign = -(libc.memcmp x y).sign := by
    rw [orders y x same.symm, orders x y same]
    exact (oriented_ofLess fun _ _ less => UInt8.lt_asymm less).lexicographic.swap x y
  have unitSign {n : Int} (answer : Answer n) : n.sign = n := by
    rcases answer with rfl | rfl | rfl <;> rfl
  rwa [unitSign one, unitSign two] at signs

/-- Two values are compared consistently exactly when they are not left to an answer
of `memcmp` other than -1, 0 and 1. -/
theorem compares_consistently_iff (orders : MemcmpOrders libc)
    (leftComparable : left.isComparable = true) (rightComparable : right.isComparable = true) :
    ComparesConsistently libc left right ↔ ¬ ByMemcmp libc left right := by
  have types := maxType_eq_blob leftComparable rightComparable
  have exchanged := maxType_comm leftComparable rightComparable
  by_cases blob : maxType left right = .blob
  · have straight := varCompare_blob libc leftComparable rightComparable blob
    have turned := varCompare_blob libc rightComparable leftComparable (exchanged.trans blob)
    unfold ByMemcmp
    generalize blobBytes libc left = x at straight turned ⊢
    generalize blobBytes libc right = y at straight turned ⊢
    rcases Nat.lt_trichotomy x.length y.length with shorter | same | longer
    · rw [if_pos shorter] at straight
      rw [if_neg (Nat.lt_asymm shorter), if_pos shorter] at turned
      refine iff_of_true ?_ ?_
      · exact consistent_of_answer leftComparable rightComparable (.inl rfl) straight turned
      · rintro ⟨-, equal, -⟩
        omega
    · rw [if_neg (by omega), if_neg (by omega)] at straight turned
      constructor
      · rintro (⟨failed, -⟩ | ⟨cmp, answer, first, second, -⟩) ⟨-, -, odd⟩
        · rw [straight] at failed
          cases failed
        · rw [straight] at first
          rw [turned] at second
          cases first
          injection second with second
          injection second with second
          exact odd ⟨answer, second ▸ answer.neg⟩
      · intro notOdd
        have both : Answer (libc.memcmp x y) ∧ Answer (libc.memcmp y x) := by
          by_contra odd
          exact notOdd ⟨types.mp blob, same, odd⟩
        rw [memcmp_turned orders same both.1 both.2] at turned
        exact consistent_of_answer leftComparable rightComparable both.1 straight turned
    · rw [if_neg (Nat.lt_asymm longer), if_pos longer] at straight
      rw [if_pos longer] at turned
      refine iff_of_true ?_ ?_
      · exact consistent_of_answer leftComparable rightComparable (.inr (.inr rfl)) straight turned
      · rintro ⟨-, equal, -⟩
        omega
  · refine iff_of_true (consistent_of_not_blob leftComparable rightComparable blob) ?_
    rintro ⟨either, -⟩
    exact blob (types.mpr either)

end Values

/-- A `memcmp` that answers with the difference of the bytes. -/
def byteDifference : Bytes → Bytes → Int
  | a :: left, b :: right =>
      if a = b then byteDifference left right else (a.toNat : Int) - b.toNat
  | _, _ => 0

def differenceLibc : Libc := { plainLibc with memcmp := byteDifference }

theorem differenceLibc_orders : MemcmpOrders differenceLibc := by
  intro left
  induction left with
  | nil =>
      intro right same
      obtain rfl : right = [] := List.length_eq_zero_iff.mp same.symm
      rfl
  | cons a left ih =>
      intro right same
      cases right with
      | nil => cases same
      | cons b right =>
          have rest := ih right (Nat.succ.inj same)
          change (byteDifference (a :: left) (b :: right)).sign = _
          rw [byteDifference, lexicographic]
          rcases Nat.lt_trichotomy a.toNat b.toNat with less | equal | greater
          · have distinct : a ≠ b := by
              rintro rfl
              omega
            have below : a < b := less
            simp only [ofLess, below, if_true, distinct, if_false]
            exact Int.sign_eq_neg_one_of_neg (by omega)
          · obtain rfl := UInt8.toNat_inj.mp equal
            change (byteDifference left right).sign = _ at rest
            simpa [ofLess] using rest
          · have distinct : a ≠ b := by
              rintro rfl
              omega
            have above : b < a := greater
            have notBelow : ¬ a < b := UInt8.lt_asymm above
            simp only [ofLess, notBelow, above, if_true, distinct, if_false]
            exact Int.sign_eq_one_of_pos (by omega)

/-- A string and an address as a number. -/
theorem string_and_number_are_ordered :
    ComparesConsistently differenceLibc (.string (cstr "7")) (.int 12) := by
  apply (compares_consistently_iff differenceLibc_orders rfl rfl).mpr
  rintro ⟨either, -⟩
  simp [Scalar.type] at either

/-- The blobs 00 and 02 are comparable, but no operator has a result for them. -/
theorem blobs_differ_by_two :
    varCompare differenceLibc (.scalar (.blob [0])) (.scalar (.blob [2])) = .ok (some (-2)) ∧
    expCompare differenceLibc .ne (some (.scalar (.blob [0]))) (some (.scalar (.blob [2]))) =
      .ok none ∧
    ¬ ComparesConsistently differenceLibc (.scalar (.blob [0])) (.scalar (.blob [2])) := by
  refine ⟨rfl, rfl, ?_⟩
  rintro (⟨failed, -⟩ | ⟨cmp, answer, first, -⟩)
  · cases failed
  · cases first
    revert answer
    decide

end Mopher
