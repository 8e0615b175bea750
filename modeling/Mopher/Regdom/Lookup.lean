import Mopher.Lib.PublicSuffix
import Mopher.Var

/-!
# Registrable domains

`regdom` of `regdom.c` walks over the suffixes of a host name from the longest to
the shortest until one is the name of a rule, and answers with one of the last two
positions before it.  A wildcard rule is stored under the name of its parent.  Over
the labels of a name this is the public suffix algorithm, except for a name that is
itself the parent of a wildcard rule.
-/

set_option autoImplicit false

namespace Mopher.Regdom

/-- `regdom_rule_t`. -/
structure RegdomRule where
  rName : Bytes
  rException : Bool
  rWildcard : Bool
deriving Repr, DecidableEq

/-- The entries of `regdom_ht`. -/
abbrev RegdomHt := List RegdomRule

def dot : UInt8 := 46

/-- Keys are compared with `strcmp`. -/
def shtLookup (regdomHt : RegdomHt) (key : Bytes) : Option RegdomRule :=
  regdomHt.find? fun rule => rule.rName = key

/-- The part of a string that begins with the first `c`. -/
def strchr (c : UInt8) : Bytes → Option Bytes
  | [] => none
  | b :: rest => if b = c then some (b :: rest) else strchr c rest

/-- `for (; *next == '.'; ++next);` -/
def skipDots (next : Bytes) : Bytes := next.dropWhile (· == dot)

theorem strchr_length {c : UInt8} {text found : Bytes} (search : strchr c text = some found) :
    found.length ≤ text.length ∧ (found.length = text.length → text.head? = some c) := by
  induction text with
  | nil => cases search
  | cons b rest ih =>
      unfold strchr at search
      split at search
      · next same =>
          cases search
          exact ⟨Nat.le_refl _, fun _ => by simp [same]⟩
      · obtain ⟨shorter, -⟩ := ih search
        constructor
        · exact Nat.le_succ_of_le shorter
        · intro full
          rw [full, List.length_cons] at shorter
          omega

theorem skipDots_head (text : Bytes) : (skipDots text).head? ≠ some dot := by
  have first := List.head?_dropWhile_not (· == dot) text
  intro start
  rw [skipDots] at start
  simp [start] at first

/-- A name without a dot is no domain. -/
def regdomResult (prev curr : Option Bytes) : Option Bytes :=
  match curr with
  | some name => if strchr dot name = none then prev else curr
  | none => none

/-- The loop of `regdom`; pointers into the name are the texts that begin there. -/
def regdomLoop (regdomHt : RegdomHt) (prev curr : Option Bytes) (next : Bytes) : Option Bytes :=
  match shtLookup regdomHt (skipDots next) with
  | some r =>
      if r.rException then some (skipDots next)
      else if r.rWildcard then prev
      else regdomResult prev curr
  | none =>
      match _search : strchr dot (skipDots next) with
      | some next' => regdomLoop regdomHt curr (some (skipDots next)) next'
      | none => regdomResult curr (some (skipDots next))
termination_by next.length
decreasing_by
  have start := skipDots_head next
  have shorter : (skipDots next).length ≤ next.length := List.length_dropWhile_le _ next
  have found := strchr_length _search
  by_cases same : next'.length = (skipDots next).length
  · exact absurd (found.2 same) start
  · omega

def regdom (regdomHt : RegdomHt) (name : Option Bytes) : Option Bytes :=
  match name with
  | none => none
  | some name =>
      if name.head? = some dot then none else regdomLoop regdomHt none none name

/-! ## Names and labels -/

def labels (name : Bytes) : List Bytes := name.splitOn dot

def join (ls : List Bytes) : Bytes := [dot].intercalate ls

/-- No label has a dot, and only the last one may be empty. -/
structure Labels (ls : List Bytes) : Prop where
  undotted : ∀ label ∈ ls, dot ∉ label
  inner : ∀ label ∈ ls.dropLast, label ≠ []

theorem join_labels (name : Bytes) : join (labels name) = name := List.intercalate_splitOn dot

theorem labels_undotted (name : Bytes) : ∀ label ∈ labels name, dot ∉ label := by
  unfold labels
  induction name with
  | nil => simp [List.splitOn_nil]
  | cons b rest ih =>
      rw [List.splitOn_cons_eq_if_modifyHead]
      split
      · intro label member
        cases member with
        | head => simp
        | tail _ later => exact ih label later
      · next other =>
          obtain ⟨first, more, split⟩ := List.exists_cons_of_ne_nil (List.splitOn_ne_nil dot rest)
          rw [split] at ih ⊢
          intro label member
          cases member with
          | head =>
              have different : dot ≠ b := by
                intro same
                exact other (by simp [same])
              simpa [different] using ih first List.mem_cons_self
          | tail _ later => exact ih label (List.mem_cons_of_mem _ later)

theorem labels_ne_nil (name : Bytes) : labels name ≠ [] := List.splitOn_ne_nil dot name

theorem labels_join {ls : List Bytes} (wellFormed : Labels ls) (some' : ls ≠ []) :
    labels (join ls) = ls := List.splitOn_intercalate dot wellFormed.undotted some'

theorem join_cons (label next : Bytes) (rest : List Bytes) :
    join (label :: next :: rest) = label ++ dot :: join (next :: rest) := by
  simp [join]

theorem mem_of_mem_splitOn {delim b : UInt8} {text token : Bytes}
    (member : token ∈ text.splitOn delim) (inside : b ∈ token) : b ∈ text := by
  induction text generalizing token with
  | nil =>
      cases List.mem_singleton.mp member
      cases inside
  | cons c rest ih =>
      rw [List.splitOn_cons_eq_if_modifyHead] at member
      split at member
      · cases member with
        | head => cases inside
        | tail _ later => exact List.mem_cons_of_mem _ (ih later inside)
      · obtain ⟨first, more, split⟩ := List.exists_cons_of_ne_nil (List.splitOn_ne_nil delim rest)
        rw [split] at ih member
        cases member with
        | head =>
            cases inside with
            | head => exact List.mem_cons_self
            | tail _ deeper => exact List.mem_cons_of_mem _ (ih List.mem_cons_self deeper)
        | tail _ later =>
            exact List.mem_cons_of_mem _ (ih (List.mem_cons_of_mem _ later) inside)

theorem Labels.tail {label : Bytes} {rest : List Bytes} (wellFormed : Labels (label :: rest)) :
    Labels rest where
  undotted other member := wellFormed.undotted other (List.mem_cons_of_mem _ member)
  inner other member := by
    cases rest with
    | nil => cases member
    | cons next rest => exact wellFormed.inner other (List.mem_cons_of_mem _ member)

theorem Labels.drop {front ls : List Bytes} (wellFormed : Labels (front ++ ls)) : Labels ls := by
  induction front with
  | nil => exact wellFormed
  | cons label front ih => exact ih wellFormed.tail

theorem head_join {ls : List Bytes} (wellFormed : Labels ls) : (join ls).head? ≠ some dot := by
  cases ls with
  | nil => simp [join]
  | cons label rest =>
      have undotted := wellFormed.undotted label List.mem_cons_self
      cases label with
      | nil =>
          cases rest with
          | nil => simp [join]
          | cons next rest => exact absurd rfl (wellFormed.inner [] List.mem_cons_self)
      | cons b label =>
          have other : b ≠ dot := fun same => undotted (same ▸ List.mem_cons_self)
          cases rest with
          | nil => simpa [join] using other
          | cons next rest => simpa [join_cons] using other

theorem skipDots_join {ls : List Bytes} (wellFormed : Labels ls) : skipDots (join ls) = join ls :=
  List.dropWhile_beq_eq_self_of_head?_ne (head_join wellFormed)

theorem strchr_append {label : Bytes} (undotted : dot ∉ label) (rest : Bytes) :
    strchr dot (label ++ rest) = strchr dot rest := by
  induction label with
  | nil => rfl
  | cons b label ih =>
      obtain ⟨other, undotted⟩ := List.ne_and_not_mem_of_not_mem_cons undotted
      rw [List.cons_append, strchr, if_neg (Ne.symm other), ih undotted]

theorem strchr_join {label : Bytes} {rest : List Bytes} (undotted : dot ∉ label) :
    strchr dot (join (label :: rest)) = if rest = [] then none else some (dot :: join rest) := by
  cases rest with
  | nil =>
      have := strchr_append undotted []
      simpa [join, strchr] using this
  | cons next rest => simp [join_cons, strchr_append undotted, strchr]

/-- The last `count` labels of a name, if it has as many. -/
def suffix (name : List Bytes) (count : Nat) : Option Bytes :=
  if count ≤ name.length then some (join (name.drop (name.length - count))) else none

theorem suffix_append (front ls : List Bytes) : suffix (front ++ ls) ls.length = some (join ls) := by
  simp [suffix]

/-! ## The loop over the labels -/

section Loop
variable (regdomHt : RegdomHt)

/-- How many labels are left of a name, counted at the longest suffix that is stored. -/
def kept : List Bytes → Nat
  | [] => 2
  | label :: rest =>
      match shtLookup regdomHt (join (label :: rest)) with
      | some r =>
          if r.rException then rest.length + 1
          else if r.rWildcard then rest.length + 3
          else rest.length + 2
      | none => kept rest

theorem regdomLoop_round (prev curr : Option Bytes) (next : Bytes) :
    regdomLoop regdomHt prev curr next =
      match shtLookup regdomHt (skipDots next) with
      | some r =>
          if r.rException then some (skipDots next)
          else if r.rWildcard then prev
          else regdomResult prev curr
      | none =>
          match strchr dot (skipDots next) with
          | some next' => regdomLoop regdomHt curr (some (skipDots next)) next'
          | none => regdomResult curr (some (skipDots next)) := by
  rw [regdomLoop]
  cases shtLookup regdomHt (skipDots next) with
  | some r => rfl
  | none => cases strchr dot (skipDots next) <;> rfl

theorem regdomLoop_dot (prev curr : Option Bytes) (next : Bytes) :
    regdomLoop regdomHt prev curr (dot :: next) = regdomLoop regdomHt prev curr next := by
  have skipped : skipDots (dot :: next) = skipDots next := by simp [skipDots]
  rw [regdomLoop_round, skipped, ← regdomLoop_round]

/-- `regdomResult` on the two positions before a suffix of the name. -/
theorem regdomResult_suffix {name : List Bytes} (wellFormed : Labels name) (count : Nat) :
    regdomResult (suffix name (count + 2)) (suffix name (count + 1)) =
      if count = 0 then suffix name 2 else suffix name (count + 1) := by
  by_cases fits : count + 1 ≤ name.length
  · obtain ⟨front, ls, rfl, length⟩ : ∃ front ls, name = front ++ ls ∧ ls.length = count + 1 :=
      ⟨name.take (name.length - (count + 1)), name.drop (name.length - (count + 1)),
        (List.take_append_drop _ _).symm, by simp; omega⟩
    cases ls with
    | nil => cases length
    | cons label rest =>
        have undotted := wellFormed.undotted label (by simp)
        have curr := suffix_append front (label :: rest)
        rw [length] at curr
        rw [List.length_cons, Nat.succ_inj] at length
        rw [curr, regdomResult, strchr_join undotted, ← length]
        cases rest with
        | nil => simp
        | cons next rest => simp
  · have short : suffix name (count + 1) = none := if_neg fits
    rw [short, regdomResult]
    split
    · next zero =>
        subst zero
        exact (if_neg (by omega)).symm
    · rfl

/-- The loop at a suffix of a name, with the two positions before it. -/
theorem regdomLoop_suffix (front : List Bytes) (label : Bytes) (rest : List Bytes)
    (wellFormed : Labels (front ++ label :: rest)) :
    regdomLoop regdomHt (suffix (front ++ label :: rest) (rest.length + 3))
        (suffix (front ++ label :: rest) (rest.length + 2)) (join (label :: rest)) =
      suffix (front ++ label :: rest) (kept regdomHt (label :: rest)) := by
  induction rest generalizing front label with
  | nil =>
      have here := wellFormed.drop
      have curr := suffix_append front [label]
      rw [regdomLoop_round, skipDots_join here, kept, strchr_join (here.undotted label (by simp))]
      cases shtLookup regdomHt (join [label]) with
      | none =>
          simp only [List.length_nil, if_true, kept]
          rw [← curr]
          exact regdomResult_suffix wellFormed 0
      | some r =>
          simp only [List.length_nil]
          split
          · exact curr.symm
          · split
            · rfl
            · exact regdomResult_suffix wellFormed 1
  | cons next rest ih =>
      have here := wellFormed.drop
      have curr := suffix_append front (label :: next :: rest)
      rw [regdomLoop_round, skipDots_join here, kept, strchr_join (here.undotted label (by simp))]
      cases shtLookup regdomHt (join (label :: next :: rest)) with
      | none =>
          have shift : front ++ label :: next :: rest = (front ++ [label]) ++ next :: rest := by simp
          simp only [if_neg (List.cons_ne_nil next rest), regdomLoop_dot]
          rw [← curr, shift]
          exact ih (front ++ [label]) next (shift ▸ wellFormed)
      | some r =>
          simp only []
          split
          · exact curr.symm
          · split
            · rfl
            · exact regdomResult_suffix wellFormed (rest.length + 2)

/-- `regdom` on a name given by its labels. -/
theorem regdom_join {name : List Bytes} (wellFormed : Labels name) (some' : name ≠ []) :
    regdom regdomHt (some (join name)) = suffix name (kept regdomHt name) := by
  obtain ⟨label, rest, rfl⟩ := List.exists_cons_of_ne_nil some'
  have loop := regdomLoop_suffix regdomHt [] label rest wellFormed
  have outside (count : Nat) : suffix (label :: rest) (rest.length + (count + 2)) = none :=
    if_neg (by simp)
  rw [List.nil_append, outside 0, outside 1] at loop
  rw [regdom, if_neg (head_join wellFormed), loop]

end Loop

end Mopher.Regdom
