import Mathlib.Data.List.Basic
import Mathlib.Data.List.Infix

/-!
# The public suffix algorithm

A name is a list of labels, the most significant one last.  A rule is a suffix; a
wildcard rule asks for one more label in front of it, and an exception rule takes
one label off a wildcard again.  The prevailing rule says how many labels of a name
are public: an exception if one matches, else the matching rule with the most
labels, else the rule that consists of a wildcard alone.
-/

set_option autoImplicit false

namespace Mopher.PublicSuffix

inductive Kind where
  | plain
  | wildcard
  | exception
deriving Repr, DecidableEq

/-- A rule without its marker. -/
structure Rule (α : Type) where
  kind : Kind
  labels : List α
deriving Repr, DecidableEq

section Algorithm
variable {α : Type}

def Rule.Matches (rule : Rule α) (name : List α) : Prop :=
  rule.labels <:+ name ∧ (rule.kind = .wildcard → rule.labels.length < name.length)

instance [DecidableEq α] (rule : Rule α) (name : List α) : Decidable (rule.Matches name) := by
  unfold Rule.Matches
  infer_instance

/-- The number of labels of a public suffix under this rule. -/
def Rule.size (rule : Rule α) : Nat :=
  match rule.kind with
  | .plain => rule.labels.length
  | .wildcard => rule.labels.length + 1
  | .exception => rule.labels.length - 1

def defaultRule : Rule α := ⟨.wildcard, []⟩

/-- The rule with the most labels, `best` if there is none with as many. -/
def longest (best : Rule α) : List (Rule α) → Rule α
  | [] => best
  | rule :: rest => longest (if best.size ≤ rule.size then rule else best) rest

def prevailing [DecidableEq α] (rules : List (Rule α)) (name : List α) : Rule α :=
  let matching := rules.filter fun rule => rule.Matches name
  match matching.find? fun rule => rule.kind = .exception with
  | some rule => rule
  | none => longest defaultRule matching

/-- The public suffix and one label more, if the name has one. -/
def registrable [DecidableEq α] (rules : List (Rule α)) (name : List α) : Option (List α) :=
  let size := (prevailing rules name).size
  if size < name.length then some (name.drop (name.length - (size + 1))) else none

/-- No rule is longer than an exception rule and ends in it. -/
def ExceptionsEnd (rules : List (Rule α)) : Prop :=
  ∀ exception ∈ rules, exception.kind = .exception →
    ∀ rule ∈ rules, exception.labels <:+ rule.labels → rule.labels = exception.labels

instance [DecidableEq α] (rules : List (Rule α)) : Decidable (ExceptionsEnd rules) := by
  unfold ExceptionsEnd
  infer_instance

/-! ## The prevailing rule -/

theorem longest_size_ge (best : Rule α) (rules : List (Rule α)) :
    best.size ≤ (longest best rules).size := by
  induction rules generalizing best with
  | nil => exact Nat.le_refl _
  | cons rule rest ih =>
      apply Nat.le_trans _ (ih _)
      split
      · assumption
      · exact Nat.le_refl _

theorem longest_ge (best : Rule α) (rules : List (Rule α)) :
    ∀ rule ∈ rules, rule.size ≤ (longest best rules).size := by
  induction rules generalizing best with
  | nil => simp
  | cons head rest ih =>
      intro rule member
      cases member with
      | head =>
          apply Nat.le_trans _ (longest_size_ge _ rest)
          split
          · exact Nat.le_refl _
          · omega
      | tail _ later => exact ih _ rule later

theorem longest_mem (best : Rule α) (rules : List (Rule α)) :
    longest best rules = best ∨ longest best rules ∈ rules := by
  induction rules generalizing best with
  | nil => exact .inl rfl
  | cons rule rest ih =>
      simp only [longest]
      rcases ih (if best.size ≤ rule.size then rule else best) with same | later
      · rw [same]
        split
        · exact .inr List.mem_cons_self
        · exact .inl rfl
      · exact .inr (List.mem_cons_of_mem _ later)

variable [DecidableEq α]

/-- An exception rule that matches prevails. -/
theorem prevailing_of_exception {rules : List (Rule α)} {name : List α} {exception : Rule α}
    (member : exception ∈ rules) (kind : exception.kind = .exception)
    (applies : exception.Matches name) :
    (prevailing rules name).kind = .exception ∧ (prevailing rules name).Matches name ∧
      prevailing rules name ∈ rules := by
  simp only [prevailing]
  cases found : (rules.filter fun rule => rule.Matches name).find?
      fun rule => rule.kind = .exception with
  | none =>
      rw [List.find?_eq_none] at found
      exact absurd kind (by simpa using found exception (by simp [member, applies]))
  | some rule =>
      have matching := List.mem_of_find?_eq_some found
      simp only [List.mem_filter, decide_eq_true_eq] at matching
      exact ⟨by simpa using List.find?_some found, matching.2, matching.1⟩

/-- Without a matching exception the prevailing rule is a longest one. -/
theorem prevailing_of_no_exception {rules : List (Rule α)} {name : List α}
    (none' : ∀ rule ∈ rules, rule.Matches name → rule.kind ≠ .exception) :
    prevailing rules name = longest defaultRule (rules.filter fun rule => rule.Matches name) := by
  have found : (rules.filter fun rule => rule.Matches name).find?
      (fun rule => rule.kind = .exception) = none := by
    rw [List.find?_eq_none]
    intro rule member
    simp only [List.mem_filter, decide_eq_true_eq] at member
    simpa using none' rule member.1 member.2
  simp only [prevailing, found]

theorem prevailing_size_le {rules : List (Rule α)} {name : List α} {size : Nat}
    (none' : ∀ rule ∈ rules, rule.Matches name → rule.kind ≠ .exception) (positive : 1 ≤ size)
    (bound : ∀ rule ∈ rules, rule.Matches name → rule.size ≤ size) :
    (prevailing rules name).size ≤ size := by
  rw [prevailing_of_no_exception none']
  rcases longest_mem defaultRule (rules.filter fun rule => rule.Matches name) with same | member
  · rw [same]
    exact positive
  · simp only [List.mem_filter, decide_eq_true_eq] at member
    exact bound _ member.1 member.2

theorem one_le_prevailing_size {rules : List (Rule α)} {name : List α}
    (none' : ∀ rule ∈ rules, rule.Matches name → rule.kind ≠ .exception) :
    1 ≤ (prevailing rules name).size := by
  rw [prevailing_of_no_exception none']
  exact longest_size_ge defaultRule _

theorem le_prevailing_size {rules : List (Rule α)} {name : List α} {rule : Rule α}
    (none' : ∀ rule ∈ rules, rule.Matches name → rule.kind ≠ .exception) (member : rule ∈ rules)
    (applies : rule.Matches name) : rule.size ≤ (prevailing rules name).size := by
  rw [prevailing_of_no_exception none']
  exact longest_ge defaultRule _ rule (by simp [member, applies])

/-- With an exception rule that matches, the public suffix lacks its first label. -/
theorem prevailing_size_of_exception {rules : List (Rule α)} (ends : ExceptionsEnd rules)
    {name : List α} {exception : Rule α} (member : exception ∈ rules)
    (kind : exception.kind = .exception) (applies : exception.Matches name) :
    (prevailing rules name).size = exception.labels.length - 1 := by
  obtain ⟨prevails, matching, stored⟩ := prevailing_of_exception member kind applies
  have same : (prevailing rules name).labels = exception.labels := by
    rcases Nat.le_total exception.labels.length (prevailing rules name).labels.length with le | le
    · exact ends _ member kind _ stored
        (List.suffix_of_suffix_length_le applies.1 matching.1 le)
    · exact (ends _ stored prevails _ member
        (List.suffix_of_suffix_length_le matching.1 applies.1 le)).symm
  simp only [Rule.size, prevails, same]

end Algorithm

end Mopher.PublicSuffix
