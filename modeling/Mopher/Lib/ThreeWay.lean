import Mathlib

/-!
# Three-way comparison

A comparison in the manner of C answers -1, 0 or 1, and the opposite number when
its sides are exchanged.  Such comparisons are made from orders, from each
other by a key, one after the other, and item by item along two lists.
-/

set_option autoImplicit false

namespace ThreeWay

/-- The answer of a three-way comparison. -/
def Answer (n : Int) : Prop := n = -1 ∨ n = 0 ∨ n = 1

instance (n : Int) : Decidable (Answer n) := inferInstanceAs (Decidable (_ ∨ _ ∨ _))

/-- `cmp` answers with -1, 0 or 1, and turns round with its sides. -/
structure Oriented {α : Type} (cmp : α → α → Int) : Prop where
  answer : ∀ a b, Answer (cmp a b)
  swap : ∀ a b, cmp b a = -cmp a b

/-- The comparison of an order. -/
def ofLess {α : Type} [LT α] [DecidableLT α] (a b : α) : Int :=
  if a < b then -1 else if b < a then 1 else 0

/-- `second` decides where `first` does not. -/
def andThen {α : Type} (first second : α → α → Int) (a b : α) : Int :=
  if first a b = 0 then second a b else first a b

/-- Item by item; the shorter of two lists that agree is smaller. -/
def lexicographic {α : Type} (cmp : α → α → Int) : List α → List α → Int
  | [], [] => 0
  | [], _ :: _ => -1
  | _ :: _, [] => 1
  | a :: left, b :: right => if cmp a b = 0 then lexicographic cmp left right else cmp a b

section Laws
variable {α β : Type}

theorem Answer.neg {n : Int} (answer : Answer n) : Answer (-n) := by
  unfold Answer at *
  omega

theorem oriented_ofLess [LT α] [DecidableLT α] (asymm : ∀ a b : α, a < b → ¬ b < a) :
    Oriented (ofLess (α := α)) where
  answer a b := by
    unfold ofLess Answer
    split
    · exact .inl rfl
    · split
      · exact .inr (.inr rfl)
      · exact .inr (.inl rfl)
  swap a b := by
    unfold ofLess
    by_cases less : a < b
    · simp [less, asymm a b less]
    · by_cases greater : b < a
      · simp [less, greater]
      · simp [less, greater]

theorem Oriented.comap {cmp : β → β → Int} (oriented : Oriented cmp) (key : α → β) :
    Oriented fun a b => cmp (key a) (key b) where
  answer a b := oriented.answer (key a) (key b)
  swap a b := oriented.swap (key a) (key b)

theorem Oriented.andThen {first second : α → α → Int} (one : Oriented first)
    (two : Oriented second) : Oriented (andThen first second) where
  answer a b := by
    unfold ThreeWay.andThen
    split
    · exact two.answer a b
    · exact one.answer a b
  swap a b := by
    have turned := one.swap a b
    unfold ThreeWay.andThen
    by_cases equal : first a b = 0
    · rw [if_pos equal, if_pos (by omega), two.swap]
    · rw [if_neg equal, if_neg (by omega), turned]

theorem Oriented.lexicographic {cmp : α → α → Int} (oriented : Oriented cmp) :
    Oriented (lexicographic cmp) where
  answer left := by
    induction left with
    | nil =>
        intro right
        cases right with
        | nil => exact .inr (.inl rfl)
        | cons b right => exact .inl rfl
    | cons a left ih =>
        intro right
        cases right with
        | nil => exact .inr (.inr rfl)
        | cons b right =>
            unfold ThreeWay.lexicographic
            split
            · exact ih right
            · exact oriented.answer a b
  swap left := by
    induction left with
    | nil =>
        intro right
        cases right <;> rfl
    | cons a left ih =>
        intro right
        cases right with
        | nil => rfl
        | cons b right =>
            have turned := oriented.swap a b
            unfold ThreeWay.lexicographic
            by_cases equal : cmp a b = 0
            · rw [if_pos equal, if_pos (by omega), ih]
            · rw [if_neg equal, if_neg (by omega), turned]

end Laws

end ThreeWay
