import Mopher.Lib.CBuffer

/-!
# Buffers that are checked

A buffer of which the places up to a limit may be read, and the places up to its room
written.  What is behind the limit has no content here: to read it is an access out of
bounds.  The functions on strings go from place to place and stop where those of C do.
-/

set_option autoImplicit false

namespace CheckedBuffer

inductive BadAccess where
  | read (place : Nat)
  | write (place : Nat)
deriving Repr, DecidableEq

/-- The bytes that may be read, from the start of the buffer. -/
structure Buffer where
  bytes : List UInt8
  room : Nat
  fits : bytes.length ≤ room

/-- A computation without an access out of bounds. -/
def InBounds {α : Type} (x : Except BadAccess α) : Prop := ∃ a, x = .ok a

/-! ## Access -/

/-- Where `n` bytes were received, a NUL is written behind them. -/
def receive (room : Nat) (bytes : List UInt8) : Except BadAccess Buffer :=
  if inside : bytes.length < room then
    .ok ⟨bytes ++ [0], room, by rw [List.length_append]; exact inside⟩
  else .error (.write bytes.length)

def Buffer.load (b : Buffer) (p : Nat) : Except BadAccess UInt8 :=
  match b.bytes[p]? with
  | some byte => .ok byte
  | none => .error (.read p)

def Buffer.set (b : Buffer) (p : Nat) (byte : UInt8) : Buffer :=
  ⟨b.bytes.set p byte, b.room, by rw [List.length_set]; exact b.fits⟩

def Buffer.store (b : Buffer) (p : Nat) (byte : UInt8) : Except BadAccess Buffer :=
  if p < b.room then .ok (b.set p byte) else .error (.write p)

/-- A function that goes from place to place; `none` is that it goes past the limit. -/
def Buffer.scan {α : Type} (b : Buffer) (p : Nat) (f : List UInt8 → Option α) : Except BadAccess α :=
  match f (b.bytes.drop p) with
  | some a => .ok a
  | none => .error (.read (max p b.bytes.length))

/-! ## Strings -/

/-- `strncmp` with a literal and its length: whether there is no difference. -/
def sameFrom : List UInt8 → List UInt8 → Option Bool
  | [], _ => some true
  | _ :: _, [] => none
  | c :: literal, byte :: rest => if byte = c then sameFrom literal rest else some false

/-- `strchr`. -/
def findFrom (c : UInt8) : List UInt8 → Option (Option Nat)
  | [] => none
  | byte :: rest =>
      if byte = c then some (some 0)
      else if byte = 0 then some none
      else (findFrom c rest).map fun found => found.map (· + 1)

/-- The bytes in front of the NUL. -/
def textFrom : List UInt8 → Option (List UInt8)
  | [] => none
  | byte :: rest => if byte = 0 then some [] else (textFrom rest).map (byte :: ·)

/-- Where a text first has another one in it. -/
def infixAt (needle : List UInt8) : List UInt8 → Option Nat
  | [] => if needle.isEmpty then some 0 else none
  | byte :: rest =>
      if needle.isPrefixOf (byte :: rest) then some 0 else (infixAt needle rest).map (· + 1)

def Buffer.strncmp (b : Buffer) (p : Nat) (literal : List UInt8) : Except BadAccess Bool :=
  b.scan p (sameFrom literal)

def Buffer.strchr (b : Buffer) (p : Nat) (c : UInt8) : Except BadAccess (Option Nat) :=
  b.scan p fun memory => (findFrom c memory).map fun found => found.map (p + ·)

def Buffer.text (b : Buffer) (p : Nat) : Except BadAccess (List UInt8) := b.scan p textFrom

def Buffer.strlen (b : Buffer) (p : Nat) : Except BadAccess Nat :=
  b.scan p fun memory => (textFrom memory).map List.length

def Buffer.strstr (b : Buffer) (p : Nat) (needle : List UInt8) : Except BadAccess (Option Nat) :=
  b.scan p fun memory => (textFrom memory).map fun text => (infixAt needle text).map (p + ·)

/-- A text as C sees it. -/
def cText (text : List UInt8) : List UInt8 := text.takeWhile (· ≠ 0)

/-- From a place on there are these bytes and the NUL that ends what may be read. -/
def Buffer.Shows (b : Buffer) (p : Nat) (text : List UInt8) : Prop := b.bytes.drop p = text ++ [0]

/-! ## Rules -/

theorem inBounds_ok {α : Type} (a : α) : InBounds (.ok a) := ⟨a, rfl⟩

theorem not_inBounds_error {α : Type} (access : BadAccess) : ¬ InBounds (.error access : Except BadAccess α) := by
  rintro ⟨a, same⟩
  cases same

theorem inBounds_bind_iff {α β : Type} {x : Except BadAccess α} {f : α → Except BadAccess β} :
    InBounds (x >>= f) ↔ ∃ a, x = .ok a ∧ InBounds (f a) := by
  cases x with
  | error access =>
      refine iff_of_false (not_inBounds_error access) ?_
      rintro ⟨a, same, _⟩
      cases same
  | ok a =>
      constructor
      · intro bounded
        exact ⟨a, rfl, bounded⟩
      · rintro ⟨a', same, bounded⟩
        cases same
        exact bounded

theorem sameFrom_append (literal text : List UInt8) (noNul : (0 : UInt8) ∉ literal) :
    sameFrom literal (text ++ [0]) = some (literal.isPrefixOf text) := by
  induction literal generalizing text with
  | nil => simp [sameFrom]
  | cons c literal ih =>
      rw [List.mem_cons, not_or] at noNul
      cases text with
      | nil =>
          rw [List.nil_append, sameFrom, if_neg noNul.1]
          rfl
      | cons byte text =>
          rw [List.cons_append, sameFrom, ih text noNul.2, List.isPrefixOf]
          by_cases same : byte = c
          · simp [same]
          · have differ : (c == byte) = false := beq_false_of_ne fun equal => same equal.symm
            simp [same, differ]

theorem textFrom_append (text rest : List UInt8) :
    textFrom (text ++ 0 :: rest) = some (cText text) := by
  induction text with
  | nil => rfl
  | cons byte text ih =>
      rw [List.cons_append, textFrom, ih]
      by_cases nul : byte = 0
      · simp [nul, cText]
      · simp [nul, cText]

/-- A string that has no NUL goes past the limit. -/
theorem textFrom_eq_none_iff (memory : List UInt8) : textFrom memory = none ↔ (0 : UInt8) ∉ memory := by
  induction memory with
  | nil => simp [textFrom]
  | cons byte memory ih =>
      rw [textFrom]
      by_cases nul : byte = 0
      · simp [nul]
      · simp [nul, ih, eq_comm]

theorem findFrom_append (c : UInt8) (text : List UInt8) (noNul : c ≠ 0) :
    findFrom c (text ++ [0]) = some (CBuffer.strchr c (cText text)) := by
  induction text with
  | nil => simp [findFrom, cText, CBuffer.strchr, noNul.symm]
  | cons byte text ih =>
      rw [List.cons_append, findFrom, ih]
      by_cases found : byte = c
      · simp [found, cText, CBuffer.strchr, noNul]
      · by_cases nul : byte = 0
        · simp [nul, cText, CBuffer.strchr, noNul.symm]
        · simp [found, nul, cText, CBuffer.strchr]

theorem cText_length_le (text : List UInt8) : (cText text).length ≤ text.length :=
  (List.takeWhile_prefix _).length_le

/-- Behind some bytes of a text is the rest of it. -/
theorem cText_drop (text : List UInt8) : ∀ {k : Nat}, k ≤ (cText text).length →
    cText (text.drop k) = (cText text).drop k := by
  induction text with
  | nil => intro k _; simp [cText]
  | cons byte text ih =>
      intro k inside
      cases k with
      | zero => rfl
      | succ k =>
          by_cases nul : byte = 0
          · simp [cText, nul] at inside
          · have same : cText (byte :: text) = byte :: cText text := by simp [cText, nul]
            rw [same] at inside ⊢
            exact ih (Nat.le_of_succ_le_succ inside)

/-- A text that has another one in it has room for it. -/
theorem infixAt_le {needle : List UInt8} (text : List UInt8) : ∀ {i : Nat},
    infixAt needle text = some i → i + needle.length ≤ text.length := by
  induction text with
  | nil =>
      intro i found
      rw [infixAt] at found
      split at found
      · rename_i empty
        cases found
        rw [List.isEmpty_iff.mp empty]
        exact Nat.le_refl 0
      · cases found
  | cons byte text ih =>
      intro i found
      rw [infixAt] at found
      split at found
      · rename_i here
        cases found
        rw [Nat.zero_add]
        exact (List.isPrefixOf_iff_prefix.mp here).length_le
      · obtain ⟨j, later, rfl⟩ := Option.map_eq_some_iff.mp found
        have room := ih later
        rw [List.length_cons]
        omega

theorem strchr_cText_lt {c : UInt8} {text : List UInt8} {i : Nat}
    (found : CBuffer.strchr c (cText text) = some i) : i < text.length :=
  Nat.lt_of_lt_of_le (CBuffer.strchr_lt found) (cText_length_le text)

section Shows
variable {b : Buffer} {p : Nat} {shown : List UInt8}

theorem Buffer.Shows.length (shows' : b.Shows p shown) : b.bytes.length = p + shown.length + 1 := by
  have drop := congrArg List.length shows'
  rw [List.length_drop, List.length_append, List.length_singleton] at drop
  omega

theorem Buffer.Shows.advance (shows' : b.Shows p shown) {k : Nat} (inside : k ≤ shown.length) :
    b.Shows (p + k) (shown.drop k) := by
  unfold Buffer.Shows at shows' ⊢
  rw [← List.drop_drop, shows', List.drop_append_of_le_length inside]

theorem Buffer.Shows.behind {front rest : List UInt8} (shows' : b.Shows p (front ++ rest)) :
    b.Shows (p + front.length) rest := by
  have later := shows'.advance (k := front.length) (by rw [List.length_append]; omega)
  rw [List.drop_left] at later
  exact later

theorem Buffer.Shows.scan {α : Type} (shows' : b.Shows p shown) {f : List UInt8 → Option α} {a : α}
    (reads : f (shown ++ [0]) = some a) : b.scan p f = .ok a := by
  unfold Buffer.scan
  rw [shows', reads]

theorem Buffer.Shows.strncmp (shows' : b.Shows p shown) {literal : List UInt8}
    (noNul : (0 : UInt8) ∉ literal) : b.strncmp p literal = .ok (literal.isPrefixOf shown) :=
  shows'.scan (sameFrom_append literal shown noNul)

theorem Buffer.Shows.strncmp_true {literal rest : List UInt8} (shows' : b.Shows p (literal ++ rest))
    (noNul : (0 : UInt8) ∉ literal) : b.strncmp p literal = .ok true := by
  rw [shows'.strncmp noNul, List.isPrefixOf_iff_prefix.mpr (List.prefix_append ..)]

theorem Buffer.Shows.strncmp_false (shows' : b.Shows p shown) {literal : List UInt8}
    (noNul : (0 : UInt8) ∉ literal) (other : ¬ literal <+: shown) :
    b.strncmp p literal = .ok false := by
  rw [← List.isPrefixOf_iff_prefix, Bool.not_eq_true] at other
  rw [shows'.strncmp noNul, other]

theorem Buffer.Shows.text (shows' : b.Shows p shown) : b.text p = .ok (cText shown) :=
  shows'.scan (textFrom_append shown [])

theorem Buffer.Shows.strlen (shows' : b.Shows p shown) : b.strlen p = .ok (cText shown).length := by
  apply shows'.scan
  rw [textFrom_append]
  rfl

theorem Buffer.Shows.strchr (shows' : b.Shows p shown) {c : UInt8} (noNul : c ≠ 0) :
    b.strchr p c = .ok ((CBuffer.strchr c (cText shown)).map (p + ·)) := by
  apply shows'.scan
  rw [findFrom_append c shown noNul]
  rfl

theorem Buffer.Shows.strstr (shows' : b.Shows p shown) (needle : List UInt8) :
    b.strstr p needle = .ok ((infixAt needle (cText shown)).map (p + ·)) := by
  apply shows'.scan
  rw [textFrom_append]
  rfl

/-- A write in front of a place does not change what is there. -/
theorem Buffer.Shows.set_before (shows' : b.Shows p shown) {i : Nat} (before : i < p) (byte : UInt8) :
    (b.set i byte).Shows p shown := by
  unfold Buffer.Shows Buffer.set at *
  rw [List.drop_set_of_lt before]
  exact shows'

theorem Buffer.Shows.set_inside (shows' : b.Shows p shown) {i : Nat} (inside : i < shown.length)
    (byte : UInt8) : (b.set (p + i) byte).Shows p (shown.set i byte) := by
  unfold Buffer.Shows Buffer.set at *
  dsimp only
  rw [List.drop_set, if_neg (by omega), shows', Nat.add_sub_cancel_left, List.set_append_left _ _ inside]

theorem Buffer.Shows.store (shows' : b.Shows p shown) {i : Nat} (inside : i < shown.length)
    (byte : UInt8) : b.store (p + i) byte = .ok (b.set (p + i) byte) := by
  have length := shows'.length
  have fits := b.fits
  rw [Buffer.store, if_pos (by omega)]

end Shows

theorem receive_shows {room : Nat} {bytes : List UInt8} {b : Buffer}
    (received : receive room bytes = .ok b) : b.Shows 0 bytes ∧ b.room = room := by
  unfold receive at received
  split at received
  · cases received
    exact ⟨rfl, rfl⟩
  · cases received

theorem inBounds_receive_iff {room : Nat} {bytes : List UInt8} :
    InBounds (receive room bytes) ↔ bytes.length < room := by
  unfold receive
  split
  · rename_i inside
    exact iff_of_true (inBounds_ok _) inside
  · rename_i outside
    exact iff_of_false (not_inBounds_error _) outside

/-- A string ends where a NUL may be read. -/
theorem inBounds_text_iff (b : Buffer) (p : Nat) : InBounds (b.text p) ↔ (0 : UInt8) ∈ b.bytes.drop p := by
  rw [← not_iff_not, ← textFrom_eq_none_iff]
  unfold Buffer.text Buffer.scan
  cases textFrom (b.bytes.drop p) with
  | none => exact iff_of_true (not_inBounds_error _) rfl
  | some text => exact iff_of_false (not_not.mpr (inBounds_ok text)) (by simp)

/-- Past the limit there is nothing to search. -/
theorem strchr_past (b : Buffer) {p : Nat} (past : b.bytes.length ≤ p) (c : UInt8) :
    b.strchr p c = .error (.read p) := by
  unfold Buffer.strchr Buffer.scan
  rw [List.drop_eq_nil_of_le past, max_eq_left past]
  rfl

theorem strstr_past (b : Buffer) {p : Nat} (past : b.bytes.length ≤ p) (needle : List UInt8) :
    b.strstr p needle = .error (.read p) := by
  unfold Buffer.strstr Buffer.scan
  rw [List.drop_eq_nil_of_le past, max_eq_left past]
  rfl

end CheckedBuffer
