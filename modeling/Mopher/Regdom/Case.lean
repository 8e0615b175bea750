import Mopher.Milter.Origin

/-!
# Host names in another case

Rules are stored in lower case, but a host name is looked up as the peer spells it.
Two spellings have the same registrable domain exactly when the longest suffixes
found for them leave the same number of labels.
-/

set_option autoImplicit false

namespace Mopher.Regdom

open Milter (HostnameKnown milterOrigin)

/-- Equality up to letter case. -/
def SameLetters (text other : Bytes) : Prop := utilTolower text = utilTolower other

def SameOutcome (result other : Option Bytes) : Prop :=
  result.map utilTolower = other.map utilTolower

theorem toLower_eq_dot (b : UInt8) : toLower b = dot ↔ b = dot := by
  have point : dot.toNat = 46 := rfl
  rw [← UInt8.toNat_inj, ← UInt8.toNat_inj, toNat_toLower, point]
  split
  · omega
  · exact Iff.rfl

theorem splitOn_tolower (name : Bytes) :
    (utilTolower name).splitOn dot = (name.splitOn dot).map utilTolower := by
  induction name with
  | nil => rfl
  | cons b rest ih =>
      have head : utilTolower (b :: rest) = toLower b :: utilTolower rest := rfl
      rw [head, List.splitOn_cons_eq_if_modifyHead, List.splitOn_cons_eq_if_modifyHead, ih]
      by_cases point : b = dot
      · simp [point, (toLower_eq_dot dot).mpr rfl, utilTolower]
      · have other : toLower b ≠ dot := fun same => point ((toLower_eq_dot b).mp same)
        obtain ⟨first, more, split⟩ := List.exists_cons_of_ne_nil (List.splitOn_ne_nil dot rest)
        simp [point, other, split, utilTolower]

theorem strtokR_tolower (name : Bytes) :
    strtokR dot (utilTolower name) = (strtokR dot name).map utilTolower := by
  unfold strtokR
  rw [splitOn_tolower, List.filter_map]
  congr 1
  apply List.filter_congr
  intro label _
  simp [utilTolower]

theorem tolower_join (ls : List Bytes) : utilTolower (join ls) = join (ls.map utilTolower) := by
  induction ls with
  | nil => rfl
  | cons label rest ih =>
      cases rest with
      | nil => simp [join]
      | cons next rest =>
          rw [join_cons, List.map_cons, List.map_cons, join_cons, ← List.map_cons, ← ih]
          simp [utilTolower, (toLower_eq_dot dot).mpr rfl]

theorem tolower_length (text : Bytes) : (utilTolower text).length = text.length := List.length_map _

/-- Labels of names in another case are the same labels in another case. -/
theorem SameLetters.tokens {name other : Bytes} (same : SameLetters name other) :
    (strtokR dot name).map utilTolower = (strtokR dot other).map utilTolower := by
  rw [← strtokR_tolower, ← strtokR_tolower, same]

theorem SameLetters.length {text other : Bytes} (same : SameLetters text other) :
    text.length = other.length := by
  rw [← tolower_length text, same, tolower_length]

theorem SameLetters.joined {name other : Bytes} (same : SameLetters name other) :
    SameLetters (join (strtokR dot name)) (join (strtokR dot other)) := by
  unfold SameLetters
  rw [tolower_join, tolower_join, same.tokens]

theorem Labels.tolower {ls : List Bytes} (wellFormed : Labels ls) :
    Labels (ls.map utilTolower) where
  undotted label member := by
    obtain ⟨origin, inside, rfl⟩ := List.mem_map.mp member
    intro dotted
    obtain ⟨b, found, same⟩ := List.mem_map.mp dotted
    exact wellFormed.undotted origin inside ((toLower_eq_dot b).mp same ▸ found)
  inner label member := by
    rw [← List.map_dropLast] at member
    obtain ⟨origin, inside, rfl⟩ := List.mem_map.mp member
    simpa [utilTolower] using wellFormed.inner origin inside

theorem Labels.of_suffix {ls part : List Bytes} (wellFormed : Labels ls) (inside : part <:+ ls) :
    Labels part := by
  obtain ⟨front, rfl⟩ := inside
  exact wellFormed.drop

theorem join_eq_nil_iff {ls : List Bytes} (full : ∀ label ∈ ls, label ≠ []) :
    join ls = [] ↔ ls = [] := by
  cases ls with
  | nil => simp [join]
  | cons label rest =>
      have some' := full label List.mem_cons_self
      cases rest with
      | nil => simpa [join] using some'
      | cons next rest => simp [join_cons]

theorem cut_suffix (regdomHt : RegdomHt) (name : List Bytes) :
    cut regdomHt name <:+ name := by
  unfold cut
  split
  · exact List.drop_suffix _ name
  · exact List.nil_suffix

theorem length_join_suffix {ls part : List Bytes} (inside : part <:+ ls) :
    (join part).length ≤ (join ls).length := by
  obtain ⟨front, rfl⟩ := inside
  induction front with
  | nil => exact Nat.le_refl _
  | cons label front ih =>
      apply Nat.le_trans ih
      cases rest : front ++ part with
      | nil => simp [join]
      | cons next rest' =>
          rw [List.cons_append, rest, join_cons]
          simp only [List.length_append, List.length_cons]
          omega

/-- Suffixes of the two names have the same letters exactly when they are as long. -/
theorem sameLetters_suffix_iff {name other : Bytes} (same : SameLetters name other)
    {part part' : List Bytes} (inside : part <:+ strtokR dot name)
    (inside' : part' <:+ strtokR dot other) :
    SameLetters (join part) (join part') ↔ part.length = part'.length := by
  unfold SameLetters
  rw [tolower_join, tolower_join]
  constructor
  · intro spelled
    by_cases none' : part = [] ∨ part' = []
    · have empty : join part = [] ↔ join part' = [] := by
        rw [← List.length_eq_zero_iff, ← List.length_eq_zero_iff, ← tolower_length (join part),
          tolower_join, spelled, ← tolower_join, tolower_length]
      rw [join_eq_nil_iff (fun label member => (strtokR_labels name).1 label (inside.mem member)),
        join_eq_nil_iff (fun label member => (strtokR_labels other).1 label (inside'.mem member))]
        at empty
      rcases none' with none' | none'
      · rw [none', empty.mp none']
      · rw [none', empty.mpr none']
    · obtain ⟨some', some''⟩ := not_or.mp none'
      have split := labels_join ((strtokR_wellFormed name).of_suffix inside).tolower
        (by simpa using some')
      rw [spelled, labels_join ((strtokR_wellFormed other).of_suffix inside').tolower
        (by simpa using some'')] at split
      simpa using (congrArg List.length split).symm
  · intro lengths
    have tokens := same.tokens
    rw [List.suffix_iff_eq_drop.mp inside, List.suffix_iff_eq_drop.mp inside', List.map_drop,
      List.map_drop, tokens]
    have total := congrArg List.length tokens
    simp only [List.length_map] at total
    rw [total, lengths]

section Case
variable (libidn : Libidn) (regdomHt : RegdomHt)

/-- The labels cut from the two names are as many, or both names are too long. -/
def SameCut (name other : Bytes) : Prop :=
  buflen ≤ (join (strtokR dot name)).length ∨
    (cut regdomHt (strtokR dot name)).length = (cut regdomHt (strtokR dot other)).length

/-- `regdom_punycode` does not depend on the case of a name exactly when the cuts agree. -/
theorem regdomPunycode_case_iff {name other : Bytes} (ascii : regdomHasNonascii name = false)
    (ascii' : regdomHasNonascii other = false) (same : SameLetters name other) :
    (∀ size > 0, SameOutcome (regdomPunycode libidn regdomHt size (some name))
        (regdomPunycode libidn regdomHt size (some other))) ↔
      SameCut regdomHt name other := by
  have total : (join (strtokR dot name)).length = (join (strtokR dot other)).length :=
    same.joined.length
  have cuts := sameLetters_suffix_iff same (cut_suffix regdomHt (strtokR dot name))
    (cut_suffix regdomHt (strtokR dot other))
  unfold SameCut
  rw [← cuts]
  by_cases room : (join (strtokR dot name)).length < buflen
  · have room' : (join (strtokR dot other)).length < buflen := total ▸ room
    constructor
    · intro outcome
      have fits := length_join_suffix (cut_suffix regdomHt (strtokR dot name))
      have fits' := length_join_suffix (cut_suffix regdomHt (strtokR dot other))
      have spelled := outcome buflen (by decide)
      rw [regdomPunycode_ascii libidn regdomHt (by decide) ascii,
        regdomPunycode_ascii libidn regdomHt (by decide) ascii', if_pos ⟨room, by omega⟩,
        if_pos ⟨room', by omega⟩] at spelled
      exact .inr (Option.some.inj spelled)
    · intro agree size positive
      rcases agree with tooLong | spelled
      · omega
      · have lengths := spelled.length
        rw [regdomPunycode_ascii libidn regdomHt positive ascii,
          regdomPunycode_ascii libidn regdomHt positive ascii']
        by_cases fits : (join (cut regdomHt (strtokR dot name))).length < size
        · rw [if_pos ⟨room, fits⟩, if_pos ⟨room', lengths ▸ fits⟩]
          exact congrArg some spelled
        · rw [if_neg fun all => fits all.2, if_neg fun all => fits (lengths ▸ all.2)]
          rfl
  · refine iff_of_true ?_ (.inl (Nat.le_of_not_lt room))
    intro size positive
    rw [regdomPunycode_ascii libidn regdomHt positive ascii,
      regdomPunycode_ascii libidn regdomHt positive ascii', if_neg fun fits => room fits.1,
      if_neg fun fits => room (total ▸ fits.1)]
    rfl

/-- The two host names are both known or both not; else the one that is known is cut to
the letters of the address. -/
def SameChoice (name other hostaddr behind : Bytes) : Prop :=
  (HostnameKnown name hostaddr behind → ¬ HostnameKnown other hostaddr behind →
    (join (strtokR dot name)).length < buflen ∧
      SameLetters (join (cut regdomHt (strtokR dot name))) hostaddr) ∧
  (HostnameKnown other hostaddr behind → ¬ HostnameKnown name hostaddr behind →
    (join (strtokR dot other)).length < buflen ∧
      SameLetters (join (cut regdomHt (strtokR dot other))) hostaddr)

/-- A known name has the letters of an address as its origin exactly when it is cut to them. -/
theorem origin_of_known_iff {name : Bytes} (ascii : regdomHasNonascii name = false)
    (hostaddr : Bytes) :
    (∀ size > 0, SameOutcome (regdomPunycode libidn regdomHt size (some name))
        (if hostaddr.length ≥ size then none else some hostaddr)) ↔
      (join (strtokR dot name)).length < buflen ∧
        SameLetters (join (cut regdomHt (strtokR dot name))) hostaddr := by
  constructor
  · intro outcome
    have short : ¬ hostaddr.length ≥
        hostaddr.length + (join (cut regdomHt (strtokR dot name))).length + 1 := by omega
    have spelled := outcome (hostaddr.length + (join (cut regdomHt (strtokR dot name))).length + 1)
      (by omega)
    rw [regdomPunycode_ascii libidn regdomHt (by omega) ascii, if_neg short] at spelled
    by_cases room : (join (strtokR dot name)).length < buflen
    · rw [if_pos ⟨room, by omega⟩] at spelled
      exact ⟨room, Option.some.inj spelled⟩
    · rw [if_neg fun all => room all.1] at spelled
      cases spelled
  · rintro ⟨room, spelled⟩ size positive
    have lengths := spelled.length
    rw [regdomPunycode_ascii libidn regdomHt positive ascii]
    by_cases fits : (join (cut regdomHt (strtokR dot name))).length < size
    · rw [if_pos ⟨room, fits⟩, if_neg (by omega)]
      exact congrArg some spelled
    · rw [if_neg fun all => fits all.2, if_pos (by omega)]
      rfl

/-- Neither the registrable domain nor the origin depends on the case of the name. -/
def CaseBlind (name other hostaddr behind : Bytes) : Prop :=
  (∀ size > 0, SameOutcome (regdomPunycode libidn regdomHt size (some name))
    (regdomPunycode libidn regdomHt size (some other))) ∧
  ∀ size > 0, SameOutcome (milterOrigin libidn regdomHt size name hostaddr behind)
    (milterOrigin libidn regdomHt size other hostaddr behind)

theorem sameOutcome_comm (result other : Option Bytes) :
    SameOutcome result other ↔ SameOutcome other result := eq_comm

/-- Domain and origin are those of the other spelling exactly when both names are cut
to as many labels and both are taken for known or not. -/
theorem origin_ignores_case_iff {name other : Bytes} (ascii : regdomHasNonascii name = false)
    (ascii' : regdomHasNonascii other = false) (same : SameLetters name other)
    (hostaddr behind : Bytes) :
    CaseBlind libidn regdomHt name other hostaddr behind ↔
      SameCut regdomHt name other ∧ SameChoice regdomHt name other hostaddr behind := by
  unfold CaseBlind SameChoice
  rw [regdomPunycode_case_iff libidn regdomHt ascii ascii' same]
  refine and_congr_right fun cuts => ?_
  have domains := (regdomPunycode_case_iff libidn regdomHt ascii ascii' same).mpr cuts
  unfold milterOrigin
  by_cases known : HostnameKnown name hostaddr behind
  · by_cases known' : HostnameKnown other hostaddr behind
    · simp [known, known']
      exact domains
    · simp only [known, known', if_true, if_false, not_true_eq_false, not_false_eq_true,
        true_implies, false_implies, and_true]
      exact origin_of_known_iff libidn regdomHt ascii hostaddr
  · by_cases known' : HostnameKnown other hostaddr behind
    · simp only [known, known', if_true, if_false, not_true_eq_false, not_false_eq_true,
        true_implies, false_implies, true_and]
      rw [← origin_of_known_iff libidn regdomHt ascii' hostaddr]
      exact forall₂_congr fun size _ => sameOutcome_comm _ _
    · simp only [known, known', if_false, false_implies, and_self, iff_true]
      exact fun size _ => rfl

end Case

/-- Rules under uk: `uk` and `co.uk`. -/
def british : RegdomHt := [⟨cstr "uk", false, false⟩, ⟨cstr "co.uk", false, false⟩]

theorem upper_case_changes_the_domain :
    SameLetters (cstr "example.co.uk") (cstr "example.CO.uk") ∧
      regdomPunycode Milter.plainLibidn british 256 (some (cstr "example.co.uk")) =
        some (cstr "example.co.uk") ∧
      regdomPunycode Milter.plainLibidn british 256 (some (cstr "example.CO.uk")) =
        some (cstr "CO.uk") ∧
      ¬ CaseBlind Milter.plainLibidn british (cstr "example.co.uk") (cstr "example.CO.uk")
        (cstr "192.0.2.1") [] := by
  have lower : regdomPunycode Milter.plainLibidn british 256 (some (cstr "example.co.uk")) =
      some (cstr "example.co.uk") := by
    rw [regdomPunycode_ascii _ _ (by decide) (by decide)]
    decide
  have upper : regdomPunycode Milter.plainLibidn british 256 (some (cstr "example.CO.uk")) =
      some (cstr "CO.uk") := by
    rw [regdomPunycode_ascii _ _ (by decide) (by decide)]
    decide
  refine ⟨by unfold SameLetters; decide, lower, upper, ?_⟩
  rintro ⟨domains, -⟩
  have spelled := domains 256 (by decide)
  rw [lower, upper] at spelled
  revert spelled
  unfold SameOutcome
  decide

theorem upper_case_host_label :
    CaseBlind Milter.plainLibidn british (cstr "Example.co.uk") (cstr "example.co.uk")
      (cstr "192.0.2.1") [] := by
  refine (origin_ignores_case_iff Milter.plainLibidn british (by decide) (by decide)
    (by unfold SameLetters; decide) _ _).mpr ⟨.inr (by decide), ?_⟩
  have known : HostnameKnown (cstr "Example.co.uk") (cstr "192.0.2.1") [] := by decide
  have known' : HostnameKnown (cstr "example.co.uk") (cstr "192.0.2.1") [] := by decide
  exact ⟨fun _ unknown => absurd known' unknown, fun _ unknown => absurd known unknown⟩

end Mopher.Regdom
