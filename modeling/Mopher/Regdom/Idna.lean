import Mopher.Eval.VarOps
import Mopher.Regdom.Lookup

/-!
# Host names in punycode

`regdom_idna` drops the empty labels of a host name and encodes those that are not
ASCII; `regdom_punycode` looks up the registrable domain of the result.  The
conversion to UCS-4 and the encoding are done by `libidn`.
-/

set_option autoImplicit false

namespace Mopher.Regdom

/-- `libidn`: `stringprep_utf8_to_ucs4`, and `punycode_encode` into a buffer with this
much room: whether it succeeds and the text it leaves there. -/
structure Libidn where
  stringprepUtf8ToUcs4 : Bytes → Option (List UInt32)
  punycodeEncode : List UInt32 → Nat → Bool × Bytes

/-- The tokens a loop over `strtok_r` with one delimiter sees. -/
def strtokR (delim : UInt8) (text : Bytes) : List Bytes :=
  (text.splitOn delim).filter fun token => token ≠ []

def regdomHasNonascii (name : Bytes) : Bool := name.any fun b => 127 < b

section Model
variable (libidn : Libidn) (regdomHt : RegdomHt)

/-- The loop of `regdom_idna`: whether it succeeds, and what is in the buffer then. -/
def regdomIdnaLoop (size : Nat) : List Bytes → Bytes → Bool × Bytes
  | [], buffer => (true, buffer)
  | domain :: rest, buffer =>
      if buffer ≠ [] ∧ buffer.length + 2 > size then (false, buffer)
      else
        let buffer := if buffer ≠ [] then buffer ++ [dot] else buffer
        if regdomHasNonascii domain = false then
          if buffer.length + domain.length + 1 > size then (false, buffer)
          else regdomIdnaLoop size rest (buffer ++ domain)
        else if buffer.length + 5 > size then (false, buffer)
        else
          let buffer := buffer ++ cstr "xn--"
          match libidn.stringprepUtf8ToUcs4 domain with
          | none => (false, buffer)
          | some ucs4 =>
              match libidn.punycodeEncode ucs4 (size - buffer.length - 1) with
              | (true, output) => regdomIdnaLoop size rest (buffer ++ output)
              | (false, output) => (false, buffer ++ output)

def regdomIdna (size : Nat) (input : Bytes) : Bool × Bytes :=
  regdomIdnaLoop libidn size (strtokR dot input) []

/-- `BUFLEN`. -/
def buflen : Nat := 1024

/-- `regdom_punycode`; `none` is the return value -1 with an empty text, else the
return value is the length of the text. -/
def regdomPunycode (size : Nat) (name : Option Bytes) : Option Bytes :=
  match name with
  | none => some []
  | some name =>
      match regdomIdna libidn buflen name with
      | (false, _) => none
      | (true, puny) =>
          match regdom regdomHt (some puny) with
          | none => some []
          | some result => if result.length ≥ size then none else some result

end Model

/-! ## ASCII names -/

theorem toNat_toLower (b : UInt8) :
    (toLower b).toNat = if 65 ≤ b.toNat ∧ b.toNat ≤ 90 then b.toNat + 32 else b.toNat := by
  have upper : isUpper b = true ↔ 65 ≤ b.toNat ∧ b.toNat ≤ 90 := by
    simp only [isUpper, Bool.and_eq_true, decide_eq_true_eq, UInt8.le_iff_toNat_le]
    exact Iff.rfl
  unfold toLower
  by_cases up : isUpper b = true
  · have small := (upper.mp up).2
    rw [if_pos up, if_pos (upper.mp up), UInt8.toNat_add]
    have gap : (32 : UInt8).toNat = 32 := rfl
    omega
  · rw [if_neg up, if_neg fun range => up (upper.mpr range)]

theorem strtokR_labels (name : Bytes) :
    (∀ label ∈ strtokR dot name, label ≠ []) ∧ ∀ label ∈ strtokR dot name, dot ∉ label := by
  constructor
  · intro label member
    simpa using (List.mem_filter.mp member).2
  · intro label member
    exact labels_undotted name label (List.mem_filter.mp member).1

theorem strtokR_wellFormed (name : Bytes) : Labels (strtokR dot name) where
  undotted := (strtokR_labels name).2
  inner label member := (strtokR_labels name).1 label (List.dropLast_subset _ member)

theorem strtokR_ascii {name : Bytes} (ascii : regdomHasNonascii name = false) :
    ∀ label ∈ strtokR dot name, regdomHasNonascii label = false := by
  intro label member
  simp only [regdomHasNonascii, List.any_eq_false, decide_eq_true_eq] at ascii ⊢
  exact fun b inside => ascii b (mem_of_mem_splitOn (List.mem_filter.mp member).1 inside)

theorem join_merge (first second : Bytes) (rest : List Bytes) :
    join ((first ++ [dot] ++ second) :: rest) = join (first :: second :: rest) := by
  cases rest with
  | nil => simp [join]
  | cons next rest => simp [join_cons]

theorem length_join_cons (first second : Bytes) (rest : List Bytes) :
    first.length + 1 + second.length ≤ (join (first :: second :: rest)).length := by
  cases rest with
  | nil => simp [join]; omega
  | cons next rest => simp [join_cons]; omega

section Ascii
variable (libidn : Libidn)

/-- The loop on ASCII labels joins them, if there is room for all of them. -/
theorem regdomIdnaLoop_ascii (size : Nat) (domains : List Bytes) (buffer : Bytes)
    (some' : buffer ≠ []) (room : buffer.length < size)
    (full : ∀ domain ∈ domains, domain ≠ [])
    (ascii : ∀ domain ∈ domains, regdomHasNonascii domain = false) :
    ((join (buffer :: domains)).length < size →
        regdomIdnaLoop libidn size domains buffer = (true, join (buffer :: domains))) ∧
      (size ≤ (join (buffer :: domains)).length →
        (regdomIdnaLoop libidn size domains buffer).1 = false) := by
  induction domains generalizing buffer with
  | nil =>
      have same : join [buffer] = buffer := by simp [join]
      rw [same]
      exact ⟨fun _ => rfl, fun tooLong => by omega⟩
  | cons domain rest ih =>
      have needed := length_join_cons buffer domain rest
      have positive : 0 < domain.length := List.length_pos_iff.mpr (full domain List.mem_cons_self)
      unfold regdomIdnaLoop
      simp only [ne_eq, some', not_false_eq_true, true_and, if_true,
        ascii domain List.mem_cons_self, List.length_append, List.length_singleton]
      by_cases dots : buffer.length + 2 > size
      · rw [if_pos dots]
        exact ⟨fun fits => by omega, fun _ => rfl⟩
      · rw [if_neg dots]
        by_cases fits : buffer.length + 1 + domain.length + 1 > size
        · rw [if_pos fits]
          exact ⟨fun room => by omega, fun _ => rfl⟩
        · rw [if_neg fits, ← join_merge]
          refine ih (buffer ++ [dot] ++ domain) (by simp) (by simp; omega) ?_ ?_
          · exact fun other member => full other (List.mem_cons_of_mem _ member)
          · exact fun other member => ascii other (List.mem_cons_of_mem _ member)

theorem regdomIdna_ascii {size : Nat} (positive : 0 < size) {name : Bytes}
    (ascii : regdomHasNonascii name = false) :
    ((join (strtokR dot name)).length < size →
        regdomIdna libidn size name = (true, join (strtokR dot name))) ∧
      (size ≤ (join (strtokR dot name)).length → (regdomIdna libidn size name).1 = false) := by
  have full := (strtokR_labels name).1
  have asciiLabels := strtokR_ascii ascii
  unfold regdomIdna
  cases tokens : strtokR dot name with
  | nil => exact ⟨fun _ => rfl, fun tooLong => by simp [join] at tooLong; omega⟩
  | cons domain rest =>
      rw [tokens] at full asciiLabels
      have some' := full domain List.mem_cons_self
      unfold regdomIdnaLoop
      simp only [ne_eq, not_true_eq_false, false_and, if_false,
        asciiLabels domain List.mem_cons_self, if_true, List.length_nil, Nat.zero_add,
        List.nil_append]
      by_cases fits : domain.length + 1 > size
      · rw [if_pos fits]
        have least : domain.length ≤ (join (domain :: rest)).length := by
          cases rest with
          | nil => simp [join]
          | cons next rest => simp [join_cons]
        exact ⟨fun room => by omega, fun _ => rfl⟩
      · rw [if_neg fits]
        exact regdomIdnaLoop_ascii libidn size rest domain some' (by omega)
          (fun other member => full other (List.mem_cons_of_mem _ member))
          (fun other member => asciiLabels other (List.mem_cons_of_mem _ member))

variable (regdomHt : RegdomHt)

/-- The labels left of a name that is cut at the longest suffix that is stored; none,
where the name is too short for that. -/
def cut (name : List Bytes) : List Bytes :=
  if kept regdomHt name ≤ name.length then name.drop (name.length - kept regdomHt name) else []

theorem regdom_empty : regdom regdomHt (some []) = none ∨ regdom regdomHt (some []) = some [] := by
  have start : regdom regdomHt (some []) = regdomLoop regdomHt none none [] := by simp [regdom]
  rw [start, regdomLoop_round]
  cases shtLookup regdomHt (skipDots []) with
  | none => exact .inl rfl
  | some r =>
      cases exception : r.rException with
      | true => exact .inr (by simp [exception, skipDots])
      | false => exact .inl (by cases wildcard : r.rWildcard <;> simp [exception, wildcard, regdomResult])

/-- `regdom_punycode` on an ASCII name is the cut of its labels. -/
theorem regdomPunycode_ascii {size : Nat} (positive : 0 < size) {name : Bytes}
    (ascii : regdomHasNonascii name = false) :
    regdomPunycode libidn regdomHt size (some name) =
      if (join (strtokR dot name)).length < buflen ∧
          (join (cut regdomHt (strtokR dot name))).length < size
        then some (join (cut regdomHt (strtokR dot name))) else none := by
  obtain ⟨fits, tooLong⟩ := regdomIdna_ascii libidn (by decide : 0 < buflen) ascii
  by_cases room : (join (strtokR dot name)).length < buflen
  · simp only [regdomPunycode, fits room, room, true_and]
    by_cases none' : strtokR dot name = []
    · have empty : join (cut regdomHt (strtokR dot name)) = [] := by
        rw [none']
        rfl
      rw [empty, none', if_pos (by simpa using positive)]
      rcases regdom_empty regdomHt with result | result
      · simp [join, result]
      · simp [join, result, Nat.ne_of_gt positive]
    · rw [regdom_join regdomHt (strtokR_wellFormed name) none', suffix, cut]
      by_cases long : kept regdomHt (strtokR dot name) ≤ (strtokR dot name).length
      · simp only [if_pos long]
        split
        · next tooShort => rw [if_neg (by omega)]
        · next tooShort => rw [if_pos (by omega)]
      · simp [if_neg long, join, positive]
  · have failed := tooLong (Nat.le_of_not_lt room)
    simp only [room, false_and, if_false]
    unfold regdomPunycode
    cases run : regdomIdna libidn buflen name with
    | mk success puny =>
        rw [run] at failed
        cases failed
        simp only [run]

end Ascii

end Mopher.Regdom
