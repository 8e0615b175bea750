import Mopher.Regdom.Idna

/-!
# Loading the rules

`regdom_load_rules` cuts every line at `//` and stores what is left under the rule's
name without its marker.  The loop that is to strip trailing white space begins at the
terminating NUL and ends there, so it strips nothing: white space in front of a comment
or at the end of a line becomes part of the name.
-/

set_option autoImplicit false

namespace Mopher.Regdom

def newline : UInt8 := 10

/-- `*p = 0` at the first `//`. -/
def stripComment : Bytes → Bytes
  | [] => []
  | b :: rest => if b = 47 ∧ rest.head? = some 47 then [] else b :: stripComment rest

/-- `for(p = name + strlen(name); p > name && isspace((int) *p); --p);` from index `p`. -/
def trailingSpaces (name : Bytes) : Nat → Nat
  | 0 => 0
  | p + 1 => if isSpace (name.getD (p + 1) 0) then trailingSpaces name p else p + 1

def stripTrailing (name : Bytes) : Bytes :=
  let p := trailingSpaces name name.length
  if p < name.length then name.take (p + 1) else name

/-- A wildcard marker; the point is optional. -/
def skipWildcard : Bytes → Bytes × Bool
  | 42 :: 46 :: name => (name, true)
  | 42 :: name => (name, true)
  | name => (name, false)

def skipException : Bytes → Bytes × Bool
  | 33 :: name => (name, true)
  | name => (name, false)

def regdomRuleCreate (name : Bytes) (wildcard exception : Bool) : RegdomRule :=
  { rName := name, rException := exception, rWildcard := wildcard }

/-- `sht_insert` fails for a key that is stored. -/
def shtInsert (regdomHt : RegdomHt) (rule : RegdomRule) : Option RegdomHt :=
  if (shtLookup regdomHt rule.rName).isSome then none else some (regdomHt ++ [rule])

section Load
variable (libidn : Libidn)

/-- One round of the loop of `regdom_load_rules`; `none` is `log_die`. -/
def loadLine (regdomHt : RegdomHt) (line : Bytes) : Option RegdomHt :=
  let name := stripTrailing (stripComment line)
  if name = [] then some regdomHt
  else
    let (name, wildcard) := skipWildcard name
    let (name, exception) := skipException name
    let name := if regdomHasNonascii name = false then utilTolower name else name
    match shtInsert regdomHt (regdomRuleCreate name wildcard exception) with
    | none => none
    | some regdomHt =>
        if regdomHasNonascii name then
          shtInsert regdomHt
            (regdomRuleCreate (regdomIdna libidn buflen name).2 wildcard exception)
        else some regdomHt

/-- `regdom_load_rules` on the content of the file; an empty file is not loaded. -/
def regdomLoadRules (file : Bytes) : Option RegdomHt :=
  if file = [] then none
  else (strtokR newline (file.takeWhile fun b => b ≠ 0)).foldlM (loadLine libidn) []

/-! ## What a line stands for -/

/-- The text of a line without its comment and the white space before that. -/
def content (line : Bytes) : Bytes := (stripComment line).rdropWhile isSpace

/-- The rule written as this text. -/
def ruleOf (text : Bytes) : RegdomRule :=
  match text with
  | 42 :: 46 :: name => ⟨utilTolower name, false, true⟩
  | 42 :: name => ⟨utilTolower name, false, true⟩
  | 33 :: name => ⟨utilTolower name, true, false⟩
  | name => ⟨utilTolower name, false, false⟩

/-- The rules of a text, one for each line that is not blank. -/
def rulesOf (file : Bytes) : RegdomHt :=
  ((file.splitOn newline).filter fun line => content line ≠ []).map fun line => ruleOf (content line)

/-- A rule is plain, a wildcard or an exception, not both of the latter. -/
def OneMarker (text : Bytes) : Prop :=
  (skipWildcard text).2 = true → (skipException (skipWildcard text).1).2 = false

/-- The part of the line in front of a comment does not end in white space. -/
def EndsClean (line : Bytes) : Prop := ∀ b ∈ (stripComment line).getLast?, isSpace b = false

instance (line : Bytes) : Decidable (EndsClean line) := by
  unfold EndsClean
  infer_instance

/-! ## One line -/

/-- The loop meets the NUL first and leaves the text alone. -/
theorem stripTrailing_eq (name : Bytes) : stripTrailing name = name := by
  have stays : trailingSpaces name name.length = name.length := by
    cases length : name.length with
    | zero => rfl
    | succ n =>
        have nul : name.getD (n + 1) 0 = 0 := by
          rw [List.getD_eq_getElem?_getD, List.getElem?_eq_none (by omega)]
          rfl
        rw [trailingSpaces, nul]
        rfl
  simp [stripTrailing, stays]

/-- What the loader stores for a text: the markers are skipped one after the other. -/
def storedRule (text : Bytes) : RegdomRule :=
  regdomRuleCreate (utilTolower (skipException (skipWildcard text).1).1) (skipWildcard text).2
    (skipException (skipWildcard text).1).2

theorem skipException_unmarked {name : Bytes} (unmarked : (skipException name).2 = false) :
    (skipException name).1 = name := by
  unfold skipException at unmarked ⊢
  split at unmarked
  · cases unmarked
  · rfl

theorem storedRule_eq {text : Bytes} (marker : OneMarker text) : storedRule text = ruleOf text := by
  have wildcard {name : Bytes} (skipped : skipWildcard text = (name, true)) :
      storedRule text = ⟨utilTolower name, false, true⟩ := by
    have unmarked : (skipException name).2 = false := by
      have := marker (by rw [skipped])
      rwa [skipped] at this
    simp only [storedRule, regdomRuleCreate, skipped, unmarked, skipException_unmarked unmarked]
  unfold ruleOf
  split
  · exact wildcard rfl
  · next name pointed =>
      refine wildcard ?_
      unfold skipWildcard
      split <;> simp_all
  · rfl
  · next starred marked =>
      have skipped : skipWildcard text = (text, false) := by
        unfold skipWildcard
        split <;> simp_all
      have unmarked : skipException text = (text, false) := by
        unfold skipException
        split <;> simp_all
      simp only [storedRule, regdomRuleCreate, skipped, unmarked]

/-! ## White space at the end -/

theorem isSpace_iff (b : UInt8) :
    isSpace b = true ↔ b.toNat = 32 ∨ (9 ≤ b.toNat ∧ b.toNat ≤ 13) := by
  simp only [isSpace, Bool.or_eq_true, beq_iff_eq, Bool.and_eq_true, decide_eq_true_eq,
    UInt8.le_iff_toNat_le, ← UInt8.toNat_inj]
  exact Iff.rfl

theorem isSpace_toLower (b : UInt8) : isSpace (toLower b) = isSpace b := by
  rw [Bool.eq_iff_iff, isSpace_iff, isSpace_iff, toNat_toLower]
  split
  · omega
  · exact Iff.rfl

theorem toLower_ascii {b : UInt8} (ascii : b ≤ 127) : toLower b ≤ 127 := by
  rw [UInt8.le_iff_toNat_le] at ascii ⊢
  rw [toNat_toLower]
  have bound : (127 : UInt8).toNat = 127 := rfl
  split
  · omega
  · omega

/-- White space at the end of a text is not part of a marker at its front. -/
theorem getLast_behind {c b : UInt8} {rest : Bytes} (last : (c :: rest).getLast? = some b)
    (space : isSpace b = true) (marker : isSpace c = false) : rest.getLast? = some b := by
  cases rest with
  | nil =>
      obtain rfl : c = b := by simpa using last
      rw [space] at marker
      cases marker
  | cons next rest => simpa using last

theorem storedRule_space {text : Bytes} {b : UInt8} (last : text.getLast? = some b)
    (space : isSpace b = true) :
    (storedRule text).rName.getLast? = some (toLower b) := by
  have wildcard : (skipWildcard text).1.getLast? = some b := by
    unfold skipWildcard
    split
    · exact getLast_behind (getLast_behind last space rfl) space rfl
    · exact getLast_behind last space rfl
    · exact last
  have exception : (skipException (skipWildcard text).1).1.getLast? = some b := by
    unfold skipException
    split
    · next rest same =>
        rw [same] at wildcard
        exact getLast_behind wildcard space rfl
    · exact wildcard
  simp [storedRule, regdomRuleCreate, utilTolower, exception]

theorem ruleOf_suffix (text : Bytes) :
    ∃ name, name <:+ text ∧ (ruleOf text).rName = utilTolower name := by
  unfold ruleOf
  split
  · next name => exact ⟨name, ⟨[42, 46], rfl⟩, rfl⟩
  · next name _ => exact ⟨name, ⟨[42], rfl⟩, rfl⟩
  · next name => exact ⟨name, ⟨[33], rfl⟩, rfl⟩
  · exact ⟨text, List.suffix_rfl, rfl⟩

theorem content_clean {line : Bytes} {b : UInt8} (last : (content line).getLast? = some b) :
    isSpace b = false := by
  have some' : content line ≠ [] := by
    intro none'
    rw [none'] at last
    cases last
  rw [List.getLast?_eq_some_getLast some'] at last
  cases last
  exact Bool.eq_false_iff.mpr (List.rdropWhile_last_not isSpace (stripComment line) some')

/-- The name of a rule of the text does not end in white space. -/
theorem ruleOf_clean {line : Bytes} {b : UInt8}
    (last : (ruleOf (content line)).rName.getLast? = some b) : isSpace b = false := by
  obtain ⟨name, ⟨front, shape⟩, same⟩ := ruleOf_suffix (content line)
  rw [same, utilTolower, List.getLast?_map, Option.map_eq_some_iff] at last
  obtain ⟨origin, lastName, rfl⟩ := last
  rw [isSpace_toLower]
  have inContent : (content line).getLast? = some origin := by
    rw [← shape, List.getLast?_append, lastName]
    rfl
  exact content_clean inContent

theorem content_of_clean {line : Bytes} (clean : EndsClean line) : content line = stripComment line := by
  unfold content
  rw [List.rdropWhile_eq_self_iff]
  intro some'
  have := clean _ (List.getLast?_eq_some_getLast some')
  simp [this]

/-! ## The file -/

theorem stripComment_subset (line : Bytes) : ∀ b ∈ stripComment line, b ∈ line := by
  induction line with
  | nil => simp [stripComment]
  | cons b rest ih =>
      unfold stripComment
      split
      · simp
      · intro c member
        cases member with
        | head => exact List.mem_cons_self
        | tail _ later => exact List.mem_cons_of_mem _ (ih c later)

/-- Every byte is ASCII and none is NUL. -/
def Ascii (text : Bytes) : Prop := ∀ b ∈ text, b ≠ 0 ∧ b ≤ 127

instance (text : Bytes) : Decidable (Ascii text) := by
  unfold Ascii
  infer_instance

section File
variable (libidn : Libidn)

theorem loadLine_ascii (regdomHt : RegdomHt) {line : Bytes} (ascii : Ascii line) :
    loadLine libidn regdomHt line =
      if stripComment line = [] then some regdomHt
      else shtInsert regdomHt (storedRule (stripComment line)) := by
  have skippedWildcard : ∀ b ∈ (skipWildcard (stripComment line)).1, b ∈ stripComment line := by
    unfold skipWildcard
    split <;> simp_all
  have skipped : ∀ b ∈ (skipException (skipWildcard (stripComment line)).1).1,
      b ∈ (skipWildcard (stripComment line)).1 := by
    unfold skipException
    split <;> simp_all
  have plain : ∀ b ∈ (skipException (skipWildcard (stripComment line)).1).1, b ≤ 127 :=
    fun b member => (ascii b (stripComment_subset line b
      (skippedWildcard b (skipped b member)))).2
  have raw : regdomHasNonascii (skipException (skipWildcard (stripComment line)).1).1 = false := by
    simp only [regdomHasNonascii, List.any_eq_false, decide_eq_true_eq]
    intro b member
    exact UInt8.not_lt.mpr (plain b member)
  have lowered : regdomHasNonascii
      (utilTolower (skipException (skipWildcard (stripComment line)).1).1) = false := by
    simp only [regdomHasNonascii, List.any_eq_false, decide_eq_true_eq, utilTolower]
    intro b member
    obtain ⟨origin, inside, rfl⟩ := List.mem_map.mp member
    exact UInt8.not_lt.mpr (toLower_ascii (plain origin inside))
  unfold loadLine
  simp only [stripTrailing_eq]
  by_cases blank : stripComment line = []
  · rw [if_pos blank, if_pos blank]
  · simp only [if_neg blank, raw, if_true, lowered, storedRule]
    cases shtInsert regdomHt (regdomRuleCreate _ _ _) <;> rfl

theorem shtLookup_isSome (regdomHt : RegdomHt) (key : Bytes) :
    (shtLookup regdomHt key).isSome = true ↔ key ∈ regdomHt.map RegdomRule.rName := by
  simp [shtLookup, List.find?_isSome]

theorem shtInsert_stored {regdomHt : RegdomHt} {rule : RegdomRule}
    (stored : rule.rName ∈ regdomHt.map RegdomRule.rName) : shtInsert regdomHt rule = none :=
  if_pos ((shtLookup_isSome regdomHt rule.rName).mpr stored)

theorem shtInsert_new {regdomHt : RegdomHt} {rule : RegdomRule}
    (new : rule.rName ∉ regdomHt.map RegdomRule.rName) :
    shtInsert regdomHt rule = some (regdomHt ++ [rule]) :=
  if_neg fun stored => new ((shtLookup_isSome regdomHt rule.rName).mp stored)

/-- The loader on the lines of an ASCII text: every line that is not empty without its
comment is stored, unless a name comes twice. -/
theorem foldlM_loadLine {lines : List Bytes} (ascii : ∀ line ∈ lines, Ascii line)
    (regdomHt : RegdomHt) (distinct : (regdomHt.map RegdomRule.rName).Nodup) :
    lines.foldlM (loadLine libidn) regdomHt =
      let stored := regdomHt ++
        ((lines.filter fun line => stripComment line ≠ []).map fun line => storedRule (stripComment line))
      if (stored.map RegdomRule.rName).Nodup then some stored else none := by
  induction lines generalizing regdomHt with
  | nil => simp [distinct]
  | cons line rest ih =>
      have later := fun other member => ascii other (List.mem_cons_of_mem line member)
      rw [List.foldlM_cons, loadLine_ascii libidn regdomHt (ascii line List.mem_cons_self)]
      by_cases blank : stripComment line = []
      · rw [if_pos blank]
        simpa [blank] using ih later regdomHt distinct
      · rw [if_neg blank]
        simp only [blank, List.filter_cons, decide_not, decide_false, Bool.not_false, if_true,
          List.map_cons]
        by_cases stored : (storedRule (stripComment line)).rName ∈ regdomHt.map RegdomRule.rName
        · rw [shtInsert_stored stored, if_neg]
          · rfl
          · intro unique
            rw [List.map_append, List.map_cons] at unique
            exact (List.nodup_append.mp unique).2.2 _ stored _ List.mem_cons_self rfl
        · rw [shtInsert_new stored]
          have unique : ((regdomHt ++ [storedRule (stripComment line)]).map
              RegdomRule.rName).Nodup := by
            rw [List.map_append, List.map_singleton]
            exact List.nodup_append.mpr ⟨distinct, List.nodup_singleton _, by
              intro name member other member' same
              rw [List.mem_singleton.mp member'] at same
              exact stored (same ▸ member)⟩
          have round := ih later _ unique
          rw [List.append_assoc, List.singleton_append] at round
          simpa using round

/-- The loader on an ASCII file, line by line. -/
theorem regdomLoadRules_ascii {file : Bytes} (ascii : Ascii file) (some' : file ≠ []) :
    regdomLoadRules libidn file =
      let stored := ((file.splitOn newline).filter fun line => stripComment line ≠ []).map
        fun line => storedRule (stripComment line)
      if (stored.map RegdomRule.rName).Nodup then some stored else none := by
  have whole : file.takeWhile (fun b => b ≠ 0) = file := by
    rw [List.takeWhile_eq_self_iff]
    intro b member
    simpa using (ascii b member).1
  have lines : ∀ line ∈ strtokR newline file, Ascii line := by
    intro line member b inside
    exact ascii b (mem_of_mem_splitOn (List.mem_filter.mp member).1 inside)
  have blanks : (strtokR newline file).filter (fun line => stripComment line ≠ []) =
      (file.splitOn newline).filter fun line => stripComment line ≠ [] := by
    rw [strtokR, List.filter_filter]
    apply List.filter_congr
    intro line _
    cases line with
    | nil => rfl
    | cons b rest => simp
  rw [regdomLoadRules, if_neg some', whole, foldlM_loadLine libidn lines [] List.nodup_nil, blanks]
  rfl

/-- The rules of a text are what is loaded exactly when the text is not empty and no line
has white space in front of its comment or at its end. -/
theorem regdomLoadRules_iff {file : Bytes} (ascii : Ascii file)
    (markers : ∀ line ∈ file.splitOn newline, OneMarker (content line))
    (distinct : ((rulesOf file).map RegdomRule.rName).Nodup) :
    regdomLoadRules libidn file = some (rulesOf file) ↔
      file ≠ [] ∧ ∀ line ∈ file.splitOn newline, EndsClean line := by
  by_cases some' : file = []
  · simp [some', regdomLoadRules]
  · rw [regdomLoadRules_ascii libidn ascii some']
    constructor
    · intro loaded
      refine ⟨some', ?_⟩
      intro line member b last
      cases space : isSpace b with
      | false => rfl
      | true =>
          -- the entry of this line has a name that no rule of the text has
          have filled : stripComment line ≠ [] := by
            intro blank
            rw [blank] at last
            cases last
          have entry : storedRule (stripComment line) ∈ rulesOf file := by
            simp only [Option.ite_none_right_eq_some, Option.some.injEq] at loaded
            rw [← loaded.2]
            exact List.mem_map.mpr ⟨line, List.mem_filter.mpr ⟨member, by simpa using filled⟩, rfl⟩
          obtain ⟨other, -, same⟩ := List.mem_map.mp entry
          have name := storedRule_space last space
          rw [← same] at name
          have clean := ruleOf_clean name
          rw [isSpace_toLower, space] at clean
          cases clean
    · rintro ⟨-, clean⟩
      have stored : (((file.splitOn newline).filter fun line => stripComment line ≠ []).map
          fun line => storedRule (stripComment line)) = rulesOf file := by
        have filters : ((file.splitOn newline).filter fun line => stripComment line ≠ []) =
            (file.splitOn newline).filter fun line => content line ≠ [] := by
          apply List.filter_congr
          intro line member
          rw [content_of_clean (clean line member)]
        rw [rulesOf, filters]
        apply List.map_congr_left
        intro line member
        have inFile := (List.mem_filter.mp member).1
        have text := content_of_clean (clean line inFile)
        rw [← text, storedRule_eq (markers line inFile)]
      rw [stored]
      exact if_pos distinct

end File

end Load

theorem space_before_comment_is_stored :
    Ascii (cstr "com // commercial") ∧
      regdomLoadRules ⟨fun _ => none, fun _ _ => (false, [])⟩ (cstr "com // commercial") =
        some [⟨cstr "com ", false, false⟩] ∧
      rulesOf (cstr "com // commercial") = [⟨cstr "com", false, false⟩] := by
  have ascii : Ascii (cstr "com // commercial") := by decide +kernel
  refine ⟨ascii, ?_, by decide⟩
  rw [regdomLoadRules_ascii _ ascii (by decide)]
  decide

theorem rules_of_ck_are_loaded :
    regdomLoadRules ⟨fun _ => none, fun _ _ => (false, [])⟩ (cstr "// ck\n*.CK\n\n!www.ck\n") =
      some (rulesOf (cstr "// ck\n*.CK\n\n!www.ck\n")) := by
  refine (regdomLoadRules_iff _ (by decide +kernel) ?_ (by decide +kernel)).mpr
    ⟨by decide, by decide +kernel⟩
  unfold OneMarker
  decide +kernel

end Mopher.Regdom
