import Mopher.Regdom.Lookup

/-!
# The lookup against the public suffix algorithm

Among the rules that match a name `regdom` finds the one stored under the longest
suffix, which is the prevailing one: a wildcard rule and the plain rule for the same
public suffix leave the same labels, and nothing is stored behind an exception.  Only
a name stored for a wildcard rule stops the lookup although that rule does not match.
-/

set_option autoImplicit false

namespace Mopher.Regdom

open PublicSuffix (Kind ExceptionsEnd registrable prevailing)

/-- `regdom` tests the exception flag first. -/
def RegdomRule.kind (r : RegdomRule) : Kind :=
  if r.rException then .exception else if r.rWildcard then .wildcard else .plain

/-- The rule that an entry stands for. -/
def RegdomRule.rule (r : RegdomRule) : PublicSuffix.Rule Bytes := ⟨r.kind, labels r.rName⟩

def rules (regdomHt : RegdomHt) : List (PublicSuffix.Rule Bytes) := regdomHt.map RegdomRule.rule

/-- A name without leading, trailing or doubled dots. -/
structure SingleDots (name : Bytes) : Prop where
  leading : name.head? ≠ some dot
  trailing : name.getLast? ≠ some dot
  doubled : ¬ [dot, dot] <:+: name

/-- Without leading and doubled dots, only the last label may be empty. -/
theorem inner_of_dots {ls : List Bytes} (leading : (join ls).head? ≠ some dot)
    (doubled : ¬ [dot, dot] <:+: join ls) : ∀ label ∈ ls.dropLast, label ≠ [] := by
  induction ls with
  | nil => simp
  | cons label rest ih =>
      cases rest with
      | nil => simp
      | cons next rest =>
          rw [join_cons] at leading doubled
          have later : ∀ label ∈ (next :: rest).dropLast, label ≠ [] := by
            apply ih
            · intro starts
              obtain ⟨more, shape⟩ := List.head?_eq_some_iff.mp starts
              exact doubled ⟨label, more, by simp [shape]⟩
            · intro inside
              exact doubled (inside.trans ⟨label ++ [dot], [], by simp⟩)
          intro other member
          rw [List.dropLast_cons_cons] at member
          cases member with
          | head =>
              intro empty
              subst empty
              exact leading rfl
          | tail _ deeper => exact later other deeper

theorem SingleDots.labels {name : Bytes} (dots : SingleDots name) : Labels (labels name) where
  undotted := labels_undotted name
  inner := inner_of_dots (by rw [join_labels]; exact dots.leading)
    (by rw [join_labels]; exact dots.doubled)

theorem rName_eq_iff {r : RegdomRule} {ls : List Bytes} (wellFormed : Labels ls) (some' : ls ≠ []) :
    r.rName = join ls ↔ labels r.rName = ls := by
  constructor
  · intro same
    rw [same, labels_join wellFormed some']
  · intro same
    rw [← same, join_labels]

section Algorithm
variable {regdomHt : RegdomHt}

/-- The labels that remain when the lookup stops at this entry. -/
def RegdomRule.keeps (r : RegdomRule) : Nat :=
  match r.kind with
  | .plain => (labels r.rName).length + 1
  | .wildcard => (labels r.rName).length + 2
  | .exception => (labels r.rName).length

/-- The entry is stored under a suffix of the name, and none under a longer one. -/
structure LongestStored (regdomHt : RegdomHt) (name : List Bytes) (r : RegdomRule) : Prop where
  member : r ∈ regdomHt
  stored : labels r.rName <:+ name
  longest : ∀ other ∈ regdomHt, labels other.rName <:+ name →
    (labels other.rName).length ≤ (labels r.rName).length

/-- The lookup stops at the entry stored under the longest suffix. -/
theorem kept_cases (regdomHt : RegdomHt) {name : List Bytes} (wellFormed : Labels name) :
    ((∀ r ∈ regdomHt, ¬ labels r.rName <:+ name) ∧ kept regdomHt name = 2) ∨
    ∃ r, LongestStored regdomHt name r ∧ kept regdomHt name = r.keeps := by
  induction name with
  | nil =>
      refine .inl ⟨?_, rfl⟩
      intro r _ suffix
      exact labels_ne_nil r.rName (List.suffix_nil.mp suffix)
  | cons label rest ih =>
      have whole (r : RegdomRule) : r.rName = join (label :: rest) ↔ labels r.rName = label :: rest :=
        rName_eq_iff wellFormed (List.cons_ne_nil label rest)
      cases found : shtLookup regdomHt (join (label :: rest)) with
      | none =>
          have absent : ∀ r ∈ regdomHt, labels r.rName ≠ label :: rest := by
            intro r member same
            have := List.find?_eq_none.mp found r member
            exact this (by simp [(whole r).mpr same])
          have keeps : kept regdomHt (label :: rest) = kept regdomHt rest := by
            simp only [kept, found]
          have shorter {r : RegdomRule} (member : r ∈ regdomHt) :
              labels r.rName <:+ label :: rest ↔ labels r.rName <:+ rest := by
            simp [List.suffix_cons_iff, absent r member]
          rw [keeps]
          rcases ih wellFormed.tail with ⟨none', same⟩ | ⟨r, found, same⟩
          · refine .inl ⟨?_, same⟩
            intro r member
            rw [shorter member]
            exact none' r member
          · refine .inr ⟨r, ⟨found.member, (shorter found.member).mpr found.stored, ?_⟩, same⟩
            intro other member
            rw [shorter member]
            exact found.longest other member
      | some r =>
          have member := List.mem_of_find?_eq_some found
          have name : r.rName = join (label :: rest) := by simpa using List.find?_some found
          have same := (whole r).mp name
          refine .inr ⟨r, ⟨member, by rw [same], ?_⟩, ?_⟩
          · intro other _ suffix
            rw [same]
            exact suffix.length_le
          · simp only [kept, found, RegdomRule.keeps, RegdomRule.kind, same, List.length_cons]
            cases r.rException <;> cases r.rWildcard <;> rfl

/-- The name is stored for a wildcard rule, and no wildcard rule makes it public. -/
def ParentOnly (regdomHt : RegdomHt) (name : List Bytes) : Prop :=
  2 ≤ name.length ∧
    (∃ r ∈ regdomHt, r.kind = .wildcard ∧ labels r.rName = name) ∧
    ∀ r ∈ regdomHt, r.kind = .wildcard → labels r.rName ≠ name.tail

theorem registrable_suffix (regdomHt : RegdomHt) (name : List Bytes) :
    (registrable (rules regdomHt) name).map join =
      suffix name ((prevailing (rules regdomHt) name).size + 1) := by
  simp only [registrable, suffix, Nat.lt_iff_add_one_le]
  split <;> rfl

/-- An entry is determined by its labels. -/
theorem sole_entry (distinct : (regdomHt.map RegdomRule.rName).Nodup) {r other : RegdomRule}
    (member : r ∈ regdomHt) (member' : other ∈ regdomHt)
    (same : labels r.rName = labels other.rName) : r = other := by
  have names := congrArg join same
  rw [join_labels, join_labels] at names
  exact List.inj_on_of_nodup_map distinct member member' names

theorem plain_size {r : RegdomRule} (kind : r.kind = .plain) :
    r.rule.size = (labels r.rName).length := by
  simp only [PublicSuffix.Rule.size, RegdomRule.rule, kind]

theorem wildcard_size {r : RegdomRule} (kind : r.kind = .wildcard) :
    r.rule.size = (labels r.rName).length + 1 := by
  simp only [PublicSuffix.Rule.size, RegdomRule.rule, kind]

/-- Where the lookup stops at no exception, no exception matches. -/
theorem LongestStored.no_exception {name : List Bytes} {r : RegdomRule}
    (found : LongestStored regdomHt name r) (distinct : (regdomHt.map RegdomRule.rName).Nodup)
    (ends : ExceptionsEnd (rules regdomHt)) (kind : r.kind ≠ .exception) :
    ∀ rule ∈ rules regdomHt, rule.Matches name → rule.kind ≠ .exception := by
  intro rule inRules applies exception
  obtain ⟨other, member, rfl⟩ := List.mem_map.mp inRules
  have inside := List.suffix_of_suffix_length_le applies.1 found.stored
    (found.longest other member applies.1)
  have same := ends other.rule inRules exception r.rule (List.mem_map_of_mem found.member) inside
  exact kind (sole_entry distinct found.member member same ▸ exception)

/-- No rule that matches asks for more labels than the one the lookup stops at. -/
theorem LongestStored.size_le {name : List Bytes} {r other : RegdomRule}
    (found : LongestStored regdomHt name r) (distinct : (regdomHt.map RegdomRule.rName).Nodup)
    (member : other ∈ regdomHt) (applies : other.rule.Matches name)
    (kind : r.kind ≠ .exception) (kind' : other.kind ≠ .exception) :
    other.rule.size ≤ r.rule.size := by
  have shorter := found.longest other member applies.1
  cases first : other.kind with
  | exception => exact absurd first kind'
  | plain =>
      rw [plain_size first]
      cases second : r.kind with
      | exception => exact absurd second kind
      | plain => rw [plain_size second]; exact shorter
      | wildcard => rw [wildcard_size second]; omega
  | wildcard =>
      rw [wildcard_size first]
      cases second : r.kind with
      | exception => exact absurd second kind
      | wildcard => rw [wildcard_size second]; omega
      | plain =>
          rw [plain_size second]
          refine Nat.lt_of_le_of_ne shorter ?_
          intro full
          have same := (List.suffix_of_suffix_length_le applies.1 found.stored shorter).eq_of_length
            full
          rw [sole_entry distinct member found.member same, second] at first
          cases first

/-- The size of the prevailing rule where the lookup stops at an entry that matches. -/
theorem LongestStored.prevailing_size {name : List Bytes} {r : RegdomRule}
    (found : LongestStored regdomHt name r) (distinct : (regdomHt.map RegdomRule.rName).Nodup)
    (ends : ExceptionsEnd (rules regdomHt)) (applies : r.rule.Matches name) :
    (prevailing (rules regdomHt) name).size + 1 = r.keeps := by
  have inRules : r.rule ∈ rules regdomHt := List.mem_map_of_mem found.member
  have positive : 0 < (labels r.rName).length := List.length_pos_iff.mpr (labels_ne_nil _)
  by_cases exception : r.kind = .exception
  · have size : (prevailing (rules regdomHt) name).size = (labels r.rName).length - 1 :=
      PublicSuffix.prevailing_size_of_exception ends inRules exception applies
    simp only [RegdomRule.keeps, exception]
    omega
  · have none' := found.no_exception distinct ends exception
    have least := PublicSuffix.le_prevailing_size none' inRules applies
    have keeps : r.keeps = r.rule.size + 1 := by
      cases kind : r.kind with
      | exception => exact absurd kind exception
      | plain => simp only [RegdomRule.keeps, kind, plain_size kind]
      | wildcard => simp only [RegdomRule.keeps, kind, wildcard_size kind]
    have one : 1 ≤ r.rule.size := by
      cases kind : r.kind with
      | exception => exact absurd kind exception
      | plain => rw [plain_size kind]; exact positive
      | wildcard => rw [wildcard_size kind]; omega
    have most : (prevailing (rules regdomHt) name).size ≤ r.rule.size := by
      refine PublicSuffix.prevailing_size_le none' one ?_
      intro rule inRules' applies'
      obtain ⟨other, member, rfl⟩ := List.mem_map.mp inRules'
      exact found.size_le distinct member applies' exception (none' other.rule inRules' applies')
    omega

/-- Where no suffix is stored, the default rule prevails. -/
theorem prevailing_size_of_unstored {name : List Bytes}
    (unstored : ∀ r ∈ regdomHt, ¬ labels r.rName <:+ name) :
    (prevailing (rules regdomHt) name).size = 1 := by
  have unmatched : ∀ rule ∈ rules regdomHt, ¬ rule.Matches name := by
    intro rule inRules applies
    obtain ⟨r, member, rfl⟩ := List.mem_map.mp inRules
    exact unstored r member applies.1
  have none' : ∀ rule ∈ rules regdomHt, rule.Matches name → rule.kind ≠ .exception :=
    fun rule inRules applies => absurd applies (unmatched rule inRules)
  apply Nat.le_antisymm
  · exact PublicSuffix.prevailing_size_le none' (Nat.le_refl 1)
      fun rule inRules applies => absurd applies (unmatched rule inRules)
  · exact PublicSuffix.one_le_prevailing_size none'

theorem longestStored_self {r : RegdomRule} (member : r ∈ regdomHt) :
    LongestStored regdomHt (labels r.rName) r :=
  ⟨member, List.suffix_rfl, fun _ _ stored => stored.length_le⟩

/-- A name that is nothing but the parent of a wildcard rule has a label in front of
its public suffix. -/
theorem prevailing_size_of_parent (distinct : (regdomHt.map RegdomRule.rName).Nodup)
    (ends : ExceptionsEnd (rules regdomHt)) {r : RegdomRule} (member : r ∈ regdomHt)
    (kind : r.kind = .wildcard) (parent : ParentOnly regdomHt (labels r.rName)) :
    (prevailing (rules regdomHt) (labels r.rName)).size < (labels r.rName).length := by
  obtain ⟨two, -, unlisted⟩ := parent
  have none' := (longestStored_self member).no_exception distinct ends (by simp [kind])
  apply Nat.lt_of_le_pred (by omega)
  refine PublicSuffix.prevailing_size_le none' (by rw [Nat.pred_eq_sub_one]; omega) ?_
  intro rule inRules applies
  obtain ⟨other, member', rfl⟩ := List.mem_map.mp inRules
  have proper : (labels other.rName).length < (labels r.rName).length := by
    refine Nat.lt_of_le_of_ne applies.1.length_le ?_
    intro full
    have same := sole_entry distinct member' member (applies.1.eq_of_length full)
    exact Nat.lt_irrefl _ (same ▸ applies.2 (same ▸ kind))
  rw [Nat.pred_eq_sub_one]
  cases kind' : other.kind with
  | exception => exact absurd kind' (none' other.rule inRules applies)
  | plain =>
      rw [plain_size kind']
      omega
  | wildcard =>
      rw [wildcard_size kind']
      have shorter : (labels other.rName).length ≠ (labels r.rName).length - 1 := by
        intro length
        refine unlisted other member' kind' ?_
        have tail : labels other.rName =
            (labels r.rName).drop ((labels r.rName).length - (labels other.rName).length) :=
          List.suffix_iff_eq_drop.mp applies.1
        rw [tail, length, Nat.sub_sub_self (by omega), List.drop_one]
      omega

/-- A wildcard rule makes the names right below its parent public. -/
theorem length_le_of_listed_tail (distinct : (regdomHt.map RegdomRule.rName).Nodup)
    (ends : ExceptionsEnd (rules regdomHt)) {r other : RegdomRule} (member : r ∈ regdomHt)
    (kind : r.kind = .wildcard) (member' : other ∈ regdomHt) (kind' : other.kind = .wildcard)
    (two : 2 ≤ (labels r.rName).length) (tail : labels other.rName = (labels r.rName).tail) :
    (labels r.rName).length ≤ (prevailing (rules regdomHt) (labels r.rName)).size := by
  have none' := (longestStored_self member).no_exception distinct ends (by simp [kind])
  have length : (labels other.rName).length + 1 = (labels r.rName).length := by
    rw [tail, List.length_tail]
    omega
  have applies : other.rule.Matches (labels r.rName) := by
    refine ⟨?_, fun _ => ?_⟩
    · show labels other.rName <:+ labels r.rName
      rw [tail]
      exact List.tail_suffix _
    · show (labels other.rName).length < (labels r.rName).length
      omega
  have least := PublicSuffix.le_prevailing_size none' (List.mem_map_of_mem member') applies
  rw [wildcard_size kind'] at least
  omega

/-- Where the lookup stops at the whole name, stored for a wildcard rule, the name is
a public suffix unless it is nothing but the parent of that rule. -/
theorem whole_name_public_iff (distinct : (regdomHt.map RegdomRule.rName).Nodup)
    (ends : ExceptionsEnd (rules regdomHt)) {r : RegdomRule} (member : r ∈ regdomHt)
    (kind : r.kind = .wildcard) :
    (labels r.rName).length ≤ (prevailing (rules regdomHt) (labels r.rName)).size ↔
      ¬ ParentOnly regdomHt (labels r.rName) := by
  constructor
  · intro covered parent
    have := prevailing_size_of_parent distinct ends member kind parent
    omega
  · intro parentOnly
    by_cases two : 2 ≤ (labels r.rName).length
    · obtain ⟨other, member', kind', tail⟩ : ∃ other ∈ regdomHt, other.kind = .wildcard ∧
          labels other.rName = (labels r.rName).tail := by
        by_contra unlisted
        refine parentOnly ⟨two, ⟨r, member, kind, rfl⟩, ?_⟩
        intro other member' kind' same
        exact unlisted ⟨other, member', kind', same⟩
      exact length_le_of_listed_tail distinct ends member kind member' kind' two tail
    · have one := PublicSuffix.one_le_prevailing_size
        ((longestStored_self member).no_exception distinct ends (by simp [kind]))
      omega

/-- The lookup stops at an entry that does not match only where that is the whole name. -/
theorem LongestStored.whole_of_no_match {name : List Bytes} {r : RegdomRule}
    (found : LongestStored regdomHt name r) (noMatch : ¬ r.rule.Matches name) :
    r.kind = .wildcard ∧ labels r.rName = name := by
  have missing : r.kind = .wildcard ∧ ¬ (labels r.rName).length < name.length := by
    by_contra none'
    refine noMatch ⟨found.stored, fun kind => ?_⟩
    by_contra whole
    exact none' ⟨kind, whole⟩
  refine ⟨missing.1, found.stored.eq_of_length ?_⟩
  exact Nat.le_antisymm found.stored.length_le (Nat.le_of_not_lt missing.2)

/-- `regdom` is the public suffix algorithm, but for the parent of a wildcard rule
that is a registrable domain itself. -/
theorem regdom_is_registrable_iff (regdomHt : RegdomHt)
    (distinct : (regdomHt.map RegdomRule.rName).Nodup) (ends : ExceptionsEnd (rules regdomHt))
    (name : Bytes) (dots : SingleDots name) :
    regdom regdomHt (some name) = (registrable (rules regdomHt) (labels name)).map join ↔
      ¬ ParentOnly regdomHt (labels name) := by
  have wellFormed := dots.labels
  have lookup := regdom_join regdomHt wellFormed (labels_ne_nil name)
  rw [join_labels] at lookup
  rw [lookup, registrable_suffix]
  rcases kept_cases regdomHt wellFormed with
    ⟨unstored, kept⟩ | ⟨r, found, kept⟩
  · rw [kept, prevailing_size_of_unstored unstored]
    refine iff_of_true rfl ?_
    rintro ⟨-, ⟨r, member, -, same⟩, -⟩
    exact unstored r member (by rw [same])
  · by_cases applies : r.rule.Matches (labels name)
    · rw [kept, found.prevailing_size distinct ends applies]
      refine iff_of_true rfl ?_
      rintro ⟨-, ⟨other, member, kind, same⟩, -⟩
      have full : (labels r.rName).length = (labels name).length :=
        Nat.le_antisymm found.stored.length_le
          (by simpa [same] using found.longest other member (by rw [same]))
      have entries := sole_entry distinct member found.member
        (same.trans (found.stored.eq_of_length full).symm)
      exact Nat.lt_irrefl _ (full ▸ applies.2 (entries ▸ kind))
    · obtain ⟨kind, whole⟩ := found.whole_of_no_match applies
      have covered := whole_name_public_iff distinct ends found.member kind
      rw [whole] at covered
      rw [kept, ← covered]
      have stopped : suffix (labels name) r.keeps = none := by
        refine if_neg ?_
        simp only [RegdomRule.keeps, kind, whole]
        omega
      rw [stopped]
      unfold suffix
      constructor
      · intro none'
        by_contra short
        rw [if_pos (by omega)] at none'
        cases none'
      · intro covered
        exact (if_neg (by omega)).symm

end Algorithm

/-- Rules under jp: `jp`, `*.kobe.jp` and `!city.kobe.jp`. -/
def japanese : RegdomHt :=
  [⟨cstr "jp", false, false⟩, ⟨cstr "kobe.jp", false, true⟩, ⟨cstr "city.kobe.jp", true, false⟩]

theorem parent_of_wildcard_has_no_domain :
    (japanese.map RegdomRule.rName).Nodup ∧ ExceptionsEnd (rules japanese) ∧
      SingleDots (cstr "kobe.jp") ∧
      regdom japanese (some (cstr "kobe.jp")) = none ∧
      (registrable (rules japanese) (labels (cstr "kobe.jp"))).map join = some (cstr "kobe.jp") := by
  have dots : SingleDots (cstr "kobe.jp") := ⟨by decide, by decide, by decide⟩
  have lookup := regdom_join japanese dots.labels (labels_ne_nil _)
  rw [join_labels] at lookup
  refine ⟨by decide, by decide, dots, ?_, by decide⟩
  rw [lookup]
  decide

theorem city_of_kobe :
    regdom japanese (some (cstr "www.city.kobe.jp")) =
      (registrable (rules japanese) (labels (cstr "www.city.kobe.jp"))).map join := by
  have dots : SingleDots (cstr "www.city.kobe.jp") := ⟨by decide, by decide, by decide⟩
  refine (regdom_is_registrable_iff japanese (by decide) (by decide) _ dots).mpr ?_
  rintro ⟨-, ⟨r, member, -, same⟩, -⟩
  revert r
  decide

end Mopher.Regdom
