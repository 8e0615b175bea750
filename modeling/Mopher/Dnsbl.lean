import Mopher.Lib.CBuffer
import Mopher.Eval.VarOps

/-!
# Queries for IPv6 addresses

Model of `dnsbl_ipv6_query` in `modules/dnsbl.c`.  The function goes through the text of
an address from its end and puts each digit to its place in a query that has a zero in
every place.  It takes every character that is no colon for a digit, the dots of an IPv4
address at the end of the text included.
-/

set_option autoImplicit false

namespace Mopher.Dnsbl

open CBuffer

def colon : UInt8 := 58

def dot : UInt8 := 46

def zeroDigit : UInt8 := 48

/-! ## The text of an address -/

/-- A digit as `inet_ntop` writes it. -/
def hexDigit (n : Nat) : UInt8 := if n < 10 then UInt8.ofNat (48 + n) else UInt8.ofNat (87 + n)

def byteDigits (b : UInt8) : Bytes := [hexDigit (b.toNat / 16), hexDigit (b.toNat % 16)]

/-- 16 bits of an address. -/
structure Group where
  high : UInt8
  low : UInt8
deriving Repr, DecidableEq

def groupsOf : List UInt8 → List Group
  | high :: low :: rest => ⟨high, low⟩ :: groupsOf rest
  | _ => []

def Group.digits (g : Group) : Bytes := byteDigits g.high ++ byteDigits g.low

/-- The digits without the zeros in front of them. -/
def Group.text (g : Group) : Bytes :=
  let digits := g.digits.dropWhile (· = zeroDigit)
  if digits = [] then [zeroDigit] else digits

def joinGroups : List Group → Bytes
  | [] => []
  | [g] => g.text
  | g :: h :: rest => g.text ++ colon :: joinGroups (h :: rest)

/-- A byte in decimal. -/
def octet (b : UInt8) : Bytes :=
  let n := b.toNat
  let digit (k : Nat) : UInt8 := UInt8.ofNat (48 + k)
  if n < 10 then [digit n]
  else if n < 100 then [digit (n / 10), digit (n % 10)]
  else [digit (n / 100), digit (n / 10 % 10), digit (n % 10)]

def dotted (b1 b2 b3 b4 : UInt8) : Bytes :=
  octet b1 ++ dot :: (octet b2 ++ dot :: (octet b3 ++ dot :: octet b4))

/-- The texts of an address: all groups, or two colons for some groups that are zero, or
the end of an IPv4-compatible or IPv4-mapped address in decimal. -/
inductive TextOf (a : In6Addr) : Bytes → Prop
  | full : TextOf a (joinGroups (groupsOf a.bytes))
  | compressed (left zeros right : List Group) (split : groupsOf a.bytes = left ++ zeros ++ right)
      (zero : ∀ g ∈ zeros, g = ⟨0, 0⟩) :
      TextOf a (joinGroups left ++ colon :: colon :: joinGroups right)
  | compatible (b1 b2 b3 b4 : UInt8) (split : a.bytes = List.replicate 12 0 ++ [b1, b2, b3, b4]) :
      TextOf a (colon :: colon :: dotted b1 b2 b3 b4)
  | mapped (b1 b2 b3 b4 : UInt8)
      (split : a.bytes = List.replicate 10 0 ++ [255, 255, b1, b2, b3, b4]) :
      TextOf a (cstr "::ffff:" ++ dotted b1 b2 b3 b4)

/-! ## The query -/

def zeroes : Bytes := cstr "0.0.0.0.0.0.0.0.0.0.0.0.0.0.0.0.0.0.0.0.0.0.0.0.0.0.0.0.0.0.0.0."

/-- The groups that the text has, counted by its colons. -/
def blocksOf (addr : Bytes) : Int :=
  addr.count colon - (if addr.head? = some colon then 1 else 0) -
    (if addr.getLast? = some colon then 1 else 0)

/-- A digit is written to its place; there is no result outside of the string. -/
def writeDigit (buffer : Bytes) (byte : Int) (c : UInt8) : Option Bytes :=
  if 0 ≤ byte ∧ byte * 2 < buffer.length then some (buffer.set (byte * 2).toNat c) else none

/-- The place where the next group starts. -/
def nextGroup (byte : Int) : Int := if byte.tmod 4 ≠ 0 then byte + (4 - byte.tmod 4) else byte

/-- The loop of `dnsbl_ipv6_query` over the text, whose last character comes first. -/
def transcribe (blocks : Int) : Bytes → Int → Bytes → Option Bytes
  | [], _, buffer => some buffer
  | [c], byte, buffer => if c = colon then some buffer else writeDigit buffer byte c
  | c :: d :: rest, byte, buffer =>
      if c = colon then
        if d = colon then transcribe blocks rest (nextGroup byte + (8 - blocks) * 4) buffer
        else transcribe blocks (d :: rest) (nextGroup byte) buffer
      else (writeDigit buffer byte c).bind (transcribe blocks (d :: rest) (byte + 1))

/-- The return value -1, a write outside of the string in the buffer, or that string. -/
inductive Answer where
  | refused
  | outside
  | query (text : Bytes)
deriving Repr, DecidableEq

def dnsblIpv6Query (size : Int) (addr domain : Bytes) : Answer :=
  if size < cInt (zeroes.length + domain.length + 1 : Nat) then .refused
  else
    match transcribe (blocksOf addr) addr.reverse 0 (zeroes ++ domain) with
    | none => .outside
    | some buffer => .query (utilTolower buffer)

/-- Every digit with a dot behind it. -/
def spread (digits : Bytes) : Bytes := digits.flatMap fun d => [d, dot]

/-- The 32 digits of the address from the last one to the first. -/
def reversedDigits (a : In6Addr) : Bytes := (a.bytes.flatMap byteDigits).reverse

def expectedQuery (a : In6Addr) (domain : Bytes) : Bytes :=
  spread (reversedDigits a) ++ utilTolower domain

/-! ## Digits and groups -/

theorem hexDigit_spec : ∀ n : Fin 16, hexDigit n ≠ colon ∧ hexDigit n ≠ dot ∧
    toLower (hexDigit n) = hexDigit n := by
  decide

theorem byteDigits_spec {b c : UInt8} (member : c ∈ byteDigits b) :
    c ≠ colon ∧ c ≠ dot ∧ toLower c = c := by
  have small := b.toNat_lt
  rcases List.mem_cons.mp member with rfl | member
  · exact hexDigit_spec ⟨b.toNat / 16, by omega⟩
  · obtain rfl := List.mem_singleton.mp member
    exact hexDigit_spec ⟨b.toNat % 16, by omega⟩

theorem digits_spec {g : Group} {c : UInt8} (member : c ∈ g.digits) :
    c ≠ colon ∧ c ≠ dot ∧ toLower c = c := by
  rcases List.mem_append.mp member with high | low
  · exact byteDigits_spec high
  · exact byteDigits_spec low

theorem length_digits (g : Group) : g.digits.length = 4 := rfl

/-- The zeros that the text leaves out are those in front. -/
theorem digits_eq (g : Group) : ∃ pad < 4, g.digits = List.replicate pad zeroDigit ++ g.text ∧
    g.text.length + pad = 4 := by
  have whole : g.digits.takeWhile (· = zeroDigit) ++ g.digits.dropWhile (· = zeroDigit) = g.digits :=
    List.takeWhile_append_dropWhile
  have front : g.digits.takeWhile (· = zeroDigit) =
      List.replicate (g.digits.takeWhile (· = zeroDigit)).length zeroDigit := by
    refine List.eq_replicate_of_mem fun c member => ?_
    simpa using List.mem_takeWhile_imp member
  have length := congrArg List.length whole
  rw [List.length_append, length_digits] at length
  unfold Group.text
  simp only []
  by_cases none' : g.digits.dropWhile (· = zeroDigit) = []
  · rw [if_pos none']
    rw [none', List.length_nil, Nat.add_zero] at length
    refine ⟨3, by decide, ?_, rfl⟩
    rw [none', List.append_nil] at whole
    rw [← whole, front, length]
    rfl
  · have some' := List.length_pos_iff.mpr none'
    rw [if_neg none']
    refine ⟨(g.digits.takeWhile (· = zeroDigit)).length, by omega, ?_, by omega⟩
    rw [← front, whole]

theorem text_ne_nil (g : Group) : g.text ≠ [] := by
  obtain ⟨pad, small, -, length⟩ := digits_eq g
  intro empty
  rw [empty, List.length_nil] at length
  omega

theorem text_spec {g : Group} {c : UInt8} (member : c ∈ g.text) : c ≠ colon ∧ c ≠ dot := by
  obtain ⟨pad, -, whole, -⟩ := digits_eq g
  have inside : c ∈ g.digits := by
    rw [whole]
    exact List.mem_append_right _ member
  exact ⟨(digits_spec inside).1, (digits_spec inside).2.1⟩

/-! ## The query while it is written -/

/-- The digits that are in place, zeros for the others, and the domain. -/
def canvas (done domain : Bytes) : Bytes :=
  spread (done ++ List.replicate (32 - done.length) zeroDigit) ++ domain

theorem spread_cons (d : UInt8) (digits : Bytes) : spread (d :: digits) = d :: dot :: spread digits := rfl

theorem length_spread (digits : Bytes) : (spread digits).length = 2 * digits.length := by
  induction digits with
  | nil => rfl
  | cons d digits ih =>
      rw [spread_cons]
      simp only [List.length_cons, ih]
      omega

theorem spread_set (digits tail : Bytes) (c : UInt8) : ∀ j < digits.length,
    (spread digits ++ tail).set (2 * j) c = spread (digits.set j c) ++ tail := by
  induction digits with
  | nil =>
      intro j inside
      cases inside
  | cons d digits ih =>
      intro j inside
      cases j with
      | zero => rfl
      | succ j =>
          have two : 2 * (j + 1) = 2 * j + 1 + 1 := by omega
          rw [two, spread_cons]
          simp only [List.cons_append, List.set_cons_succ]
          rw [ih j (by simpa using inside)]
          rfl

theorem writeDigit_canvas (done domain : Bytes) (c : UInt8) (room : done.length < 32) :
    writeDigit (canvas done domain) done.length c = some (canvas (done ++ [c]) domain) := by
  obtain ⟨more, left⟩ : ∃ more, 32 - done.length = more + 1 := ⟨32 - done.length - 1, by omega⟩
  have inside : (done.length : Int) * 2 < (canvas done domain).length := by
    rw [canvas, List.length_append, length_spread, List.length_append, List.length_replicate]
    push_cast
    omega
  have place : ((done.length : Int) * 2).toNat = 2 * done.length := by omega
  have rest : 32 - (done ++ [c]).length = more := by
    rw [List.length_append, List.length_singleton]
    omega
  rw [writeDigit, if_pos ⟨by omega, inside⟩, place, canvas,
    spread_set _ _ _ _ (by rw [List.length_append, List.length_replicate]; omega), left,
    List.replicate_succ, List.set_append_right _ _ (le_refl _), Nat.sub_self, List.set_cons_zero,
    canvas, rest, List.append_assoc]
  rfl

/-- Zeros at the end of what is done are there already. -/
theorem canvas_zeros (done domain : Bytes) (pad : Nat) (room : done.length + pad ≤ 32) :
    canvas (done ++ List.replicate pad zeroDigit) domain = canvas done domain := by
  have zeros : List.replicate pad zeroDigit ++
      List.replicate (32 - (done ++ List.replicate pad zeroDigit).length) zeroDigit =
        List.replicate (32 - done.length) zeroDigit := by
    rw [List.length_append, List.length_replicate, List.replicate_append_replicate]
    congr 1
    omega
  rw [canvas, List.append_assoc, zeros, canvas]

theorem canvas_full {done : Bytes} (domain : Bytes) (full : done.length = 32) :
    canvas done domain = spread done ++ domain := by
  rw [canvas, full, Nat.sub_self, List.replicate_zero, List.append_nil]

theorem canvas_nil (domain : Bytes) : canvas [] domain = zeroes ++ domain := by
  have start : spread ([] ++ List.replicate (32 - ([] : Bytes).length) zeroDigit) = zeroes := by decide
  rw [canvas, start]

/-! ## The loop -/

section Loop
variable {blocks : Int} {domain : Bytes}

theorem transcribe_digit {c : UInt8} (digit : c ≠ colon) (rest : Bytes) (byte : Int) (buffer : Bytes) :
    transcribe blocks (c :: rest) byte buffer =
      (writeDigit buffer byte c).bind (transcribe blocks rest (byte + 1)) := by
  cases rest with
  | nil =>
      rw [transcribe, if_neg digit]
      cases writeDigit buffer byte c <;> rfl
  | cons d rest => rw [transcribe, if_neg digit]

theorem transcribe_colon {d : UInt8} (digit : d ≠ colon) (rest : Bytes) (byte : Int) (buffer : Bytes) :
    transcribe blocks (colon :: d :: rest) byte buffer =
      transcribe blocks (d :: rest) (nextGroup byte) buffer := by
  rw [transcribe, if_pos rfl, if_neg digit]

theorem transcribe_colons (rest : Bytes) (byte : Int) (buffer : Bytes) :
    transcribe blocks (colon :: colon :: rest) byte buffer =
      transcribe blocks rest (nextGroup byte + (8 - blocks) * 4) buffer := by
  rw [transcribe, if_pos rfl, if_pos rfl]

/-- Digits are put behind what is done. -/
theorem transcribe_digits (blocks : Int) (domain digits rest : Bytes) (none' : ∀ c ∈ digits, c ≠ colon) :
    ∀ done : Bytes, done.length + digits.length ≤ 32 →
      transcribe blocks (digits ++ rest) done.length (canvas done domain) =
        transcribe blocks rest (done ++ digits).length (canvas (done ++ digits) domain) := by
  induction digits with
  | nil =>
      intro done _
      rw [List.append_nil, List.nil_append]
  | cons c digits ih =>
      intro done room
      rw [List.length_cons] at room
      have next : (done.length : Int) + 1 = (done ++ [c]).length := by
        simp
      rw [List.cons_append, transcribe_digit (none' c (by simp)), writeDigit_canvas _ _ _ (by omega),
        Option.bind_some, next, ih (fun d member => none' d (by simp [member])) (done ++ [c])
          (by rw [List.length_append, List.length_singleton]; omega),
        List.append_assoc, List.singleton_append]

/-- The next group starts behind the zeros that a text has left out. -/
theorem nextGroup_pad (done : Bytes) {pad : Nat} (small : pad < 4)
    (aligned : (done.length + pad) % 4 = 0) : nextGroup done.length = (done.length + pad : Nat) := by
  unfold nextGroup
  rw [Int.tmod_eq_emod_of_nonneg (by omega)]
  split
  · omega
  · omega

/-- The digits of groups from the last one to the first. -/
def reversedGroups (gs : List Group) : Bytes := (gs.flatMap Group.digits).reverse

theorem length_reversedGroups (gs : List Group) : (reversedGroups gs).length = 4 * gs.length := by
  induction gs with
  | nil => rfl
  | cons g gs ih =>
      rw [reversedGroups, List.length_reverse] at ih ⊢
      rw [List.flatMap_cons, List.length_append, ih, length_digits, List.length_cons]
      omega

theorem reversedGroups_append (first second : List Group) :
    reversedGroups (first ++ second) = reversedGroups second ++ reversedGroups first := by
  rw [reversedGroups, List.flatMap_append, List.reverse_append]
  rfl

theorem joinGroups_snoc (front : List Group) (g : Group) (some' : front ≠ []) :
    joinGroups (front ++ [g]) = joinGroups front ++ colon :: g.text := by
  induction front with
  | nil => exact (some' rfl).elim
  | cons h front ih =>
      cases front with
      | nil => rfl
      | cons h' front =>
          have rest := ih (List.cons_ne_nil _ _)
          rw [List.cons_append] at rest
          rw [List.cons_append, List.cons_append, joinGroups, rest]
          simp [joinGroups]

/-- A text of groups does not end with a colon. -/
theorem joinGroups_reverse {gs : List Group} (some' : gs ≠ []) :
    ∃ d more, (joinGroups gs).reverse = d :: more ∧ d ≠ colon := by
  obtain ⟨front, g, rfl⟩ := List.eq_nil_or_concat gs |>.resolve_left some'
  have nonempty : g.text.reverse ≠ [] := by
    simpa using text_ne_nil g
  rw [List.concat_eq_append]
  obtain ⟨d, more, text⟩ := List.exists_cons_of_ne_nil nonempty
  have digit : d ≠ colon := by
    have member : d ∈ g.text.reverse := by simp [text]
    exact (text_spec (List.mem_reverse.mp member)).1
  by_cases first : front = []
  · subst first
    exact ⟨d, more, text, digit⟩
  · refine ⟨d, more ++ colon :: (joinGroups front).reverse, ?_, digit⟩
    rw [joinGroups_snoc front g first, List.reverse_append, List.reverse_cons, text]
    simp

theorem joinGroups_head {gs : List Group} (some' : gs ≠ []) :
    ∃ d more, joinGroups gs = d :: more ∧ d ≠ colon := by
  obtain ⟨g, rest, rfl⟩ := List.exists_cons_of_ne_nil some'
  obtain ⟨d, more, text⟩ := List.exists_cons_of_ne_nil (text_ne_nil g)
  have digit : d ≠ colon := (text_spec (g := g) (c := d) (by simp [text])).1
  cases rest with
  | nil => exact ⟨d, more, text, digit⟩
  | cons h rest =>
      refine ⟨d, more ++ colon :: joinGroups (h :: rest), ?_, digit⟩
      rw [joinGroups, text]
      rfl

/-- After the groups of a text their digits are done, but for zeros at the end. -/
theorem transcribe_groups (blocks : Int) (domain : Bytes) (gs : List Group) (rest : Bytes) :
    ∀ done : Bytes, done.length % 4 = 0 →
    done.length + 4 * gs.length ≤ 32 →
    ∃ done' pad, pad < 4 ∧ done' ++ List.replicate pad zeroDigit = done ++ reversedGroups gs ∧
      transcribe blocks ((joinGroups gs).reverse ++ rest) done.length (canvas done domain) =
        transcribe blocks rest done'.length (canvas done' domain) := by
  induction gs using List.reverseRecOn with
  | nil =>
      intro done _ _
      exact ⟨done, 0, by decide, rfl, rfl⟩
  | append_singleton front g ih =>
      intro done aligned room
      obtain ⟨pad, small, whole, length⟩ := digits_eq g
      rw [List.length_append, List.length_singleton] at room
      have unread : ∀ c ∈ g.text.reverse, c ≠ colon := fun c member =>
        (text_spec (List.mem_reverse.mp member)).1
      have padded : g.text.reverse ++ List.replicate pad zeroDigit = g.digits.reverse := by
        rw [whole, List.reverse_append, List.reverse_replicate]
      have single : reversedGroups [g] = g.digits.reverse := by
        simp [reversedGroups]
      by_cases first : front = []
      · subst first
        refine ⟨done ++ g.text.reverse, pad, small, ?_, ?_⟩
        · rw [List.append_assoc, padded, List.nil_append, single]
        · exact transcribe_digits _ _ _ rest unread done (by rw [List.length_reverse]; omega)
      · -- the colon moves on to the place behind all four digits
        obtain ⟨d, more, text, digit⟩ := joinGroups_reverse first
        have four : (done ++ g.digits.reverse).length = done.length + 4 := by
          rw [List.length_append, List.length_reverse, length_digits]
        have place : nextGroup (done ++ g.text.reverse).length = (done ++ g.digits.reverse).length := by
          rw [nextGroup_pad _ small, four, List.length_append, List.length_reverse]
          · congr 1
            omega
          · rw [List.length_append, List.length_reverse]
            omega
        have same : canvas (done ++ g.text.reverse) domain = canvas (done ++ g.digits.reverse) domain := by
          rw [← padded, ← List.append_assoc, canvas_zeros]
          rw [List.length_append, List.length_reverse]
          omega
        obtain ⟨done', pad', small', split, ran⟩ := ih (done ++ g.digits.reverse) (by omega) (by omega)
        refine ⟨done', pad', small', ?_, ?_⟩
        · rw [split, reversedGroups_append, single, List.append_assoc]
        · rw [joinGroups_snoc front g first, List.reverse_append, List.reverse_cons, List.append_assoc,
            List.append_assoc, transcribe_digits _ _ _ _ unread done (by rw [List.length_reverse]; omega),
            List.singleton_append, text, List.cons_append, transcribe_colon digit, ← List.cons_append,
            ← text, place, same]
          exact ran

theorem nextGroup_le {byte : Int} (natural : 0 ≤ byte) : byte ≤ nextGroup byte := by
  unfold nextGroup
  rw [Int.tmod_eq_emod_of_nonneg natural]
  split
  · omega
  · omega

theorem writeDigit_keeps {buffer buffer' : Bytes} {byte : Int} {c : UInt8}
    (written : writeDigit buffer byte c = some buffer') {i : Nat} (before : (i : Int) < byte * 2) :
    buffer'[i]? = buffer[i]? := by
  unfold writeDigit at written
  split at written
  · obtain rfl := Option.some.inj written
    rw [List.getElem?_set_ne (by omega)]
  · cases written

/-- What is in place is not changed any more. -/
theorem transcribe_keeps (few : blocks ≤ 8) (chars : Bytes) : ∀ (byte : Int) (buffer buffer' : Bytes),
    0 ≤ byte → transcribe blocks chars byte buffer = some buffer' →
    ∀ i : Nat, (i : Int) < byte * 2 → buffer'[i]? = buffer[i]? := by
  induction chars using List.twoStepInduction with
  | nil =>
      intro byte buffer buffer' _ ran i _
      obtain rfl := Option.some.inj ran
      rfl
  | singleton c =>
      intro byte buffer buffer' natural ran i before
      rw [transcribe] at ran
      split at ran
      · obtain rfl := Option.some.inj ran
        rfl
      · exact writeDigit_keeps ran before
  | cons_cons c d rest ih ih' =>
      intro byte buffer buffer' natural ran i before
      have forward := nextGroup_le natural
      by_cases colon' : c = colon
      · subst colon'
        by_cases colons : d = colon
        · subst colons
          rw [transcribe_colons] at ran
          exact ih _ _ _ (by omega) ran i (by omega)
        · rw [transcribe_colon colons] at ran
          exact ih' d _ _ _ (by omega) ran i (by omega)
      · rw [transcribe_digit colon'] at ran
        obtain ⟨middle, written, ran⟩ := Option.bind_eq_some_iff.mp ran
        rw [ih' d _ _ _ (by omega) ran i (by omega), writeDigit_keeps written before]
end Loop

/-! ## Texts in hexadecimal -/

theorem flatMap_groupsOf (bytes : List UInt8) (even : bytes.length % 2 = 0) :
    (groupsOf bytes).flatMap Group.digits = bytes.flatMap byteDigits ∧
      2 * (groupsOf bytes).length = bytes.length := by
  induction bytes using List.twoStepInduction with
  | nil => exact ⟨rfl, rfl⟩
  | singleton b => cases even
  | cons_cons high low rest ih _ =>
      obtain ⟨digits, length⟩ := ih (by simp only [List.length_cons] at even; omega)
      rw [groupsOf]
      constructor
      · rw [List.flatMap_cons, List.flatMap_cons, List.flatMap_cons, digits, Group.digits,
          List.append_assoc]
      · simp only [List.length_cons]
        omega

section Hexadecimal
variable {a : In6Addr} {domain : Bytes}

theorem length_groupsOf (a : In6Addr) : (groupsOf a.bytes).length = 8 := by
  have size := a.size
  have length := (flatMap_groupsOf a.bytes (by omega)).2
  omega

theorem reversedGroups_groupsOf (a : In6Addr) : reversedGroups (groupsOf a.bytes) = reversedDigits a := by
  have size := a.size
  rw [reversedGroups, (flatMap_groupsOf a.bytes (by omega)).1, reversedDigits]

theorem length_reversedDigits (a : In6Addr) : (reversedDigits a).length = 32 := by
  rw [← reversedGroups_groupsOf, length_reversedGroups, length_groupsOf]

/-- The zeros that are missing at the end of what is done are there already. -/
theorem canvas_done {done : Bytes} {pad : Nat}
    (whole : done ++ List.replicate pad zeroDigit = reversedDigits a) :
    canvas done domain = spread (reversedDigits a) ++ domain := by
  have length := congrArg List.length whole
  rw [List.length_append, List.length_replicate, length_reversedDigits] at length
  rw [← canvas_zeros done domain pad (by omega), whole,
    canvas_full domain (length_reversedDigits a)]

theorem transcribe_full (blocks : Int) :
    transcribe blocks (joinGroups (groupsOf a.bytes)).reverse 0 (zeroes ++ domain) =
      some (spread (reversedDigits a) ++ domain) := by
  obtain ⟨done, pad, -, whole, ran⟩ := transcribe_groups blocks domain
    (groupsOf a.bytes) [] [] rfl (by rw [length_groupsOf]; decide)
  rw [List.append_nil, canvas_nil] at ran
  rw [List.nil_append, reversedGroups_groupsOf] at whole
  rw [← canvas_done whole]
  exact ran

theorem reversedGroups_zero {gs : List Group} (zero : ∀ g ∈ gs, g = ⟨0, 0⟩) :
    reversedGroups gs = List.replicate (4 * gs.length) zeroDigit := by
  refine List.eq_replicate_iff.mpr ⟨length_reversedGroups gs, ?_⟩
  intro c member
  rw [reversedGroups, List.mem_reverse] at member
  obtain ⟨g, inside, digit⟩ := List.mem_flatMap.mp member
  rw [zero g inside] at digit
  revert digit
  have digits : Group.digits ⟨0, 0⟩ = List.replicate 4 zeroDigit := by decide
  rw [digits]
  exact fun digit => (List.mem_replicate.mp digit).2

/-- Two colons move on to the place behind the groups they stand for. -/
theorem transcribe_compressed {left zeros right : List Group}
    (split : groupsOf a.bytes = left ++ zeros ++ right) (zero : ∀ g ∈ zeros, g = ⟨0, 0⟩) :
    transcribe (left.length + right.length : Nat)
        (joinGroups left ++ colon :: colon :: joinGroups right).reverse 0 (zeroes ++ domain) =
      some (spread (reversedDigits a) ++ domain) := by
  have lengths := congrArg List.length split
  rw [length_groupsOf, List.length_append, List.length_append] at lengths
  obtain ⟨done, pad, small, whole, ran⟩ :=
    transcribe_groups (left.length + right.length : Nat) domain right
      (colon :: colon :: (joinGroups left).reverse) [] rfl (by simp only [List.length_nil]; omega)
  rw [canvas_nil, List.nil_append] at *
  have length := congrArg List.length whole
  rw [List.length_append, List.length_replicate, length_reversedGroups] at length
  have place : nextGroup done.length + (8 - ((left.length + right.length : Nat) : Int)) * 4 =
      (reversedGroups (zeros ++ right)).length := by
    rw [nextGroup_pad done small (by omega), length_reversedGroups, List.length_append]
    push_cast
    omega
  have same : canvas done domain = canvas (reversedGroups (zeros ++ right)) domain := by
    rw [reversedGroups_append, reversedGroups_zero zero, ← whole, List.append_assoc,
      List.replicate_append_replicate, canvas_zeros]
    omega
  obtain ⟨done', pad', -, whole', ran'⟩ :=
    transcribe_groups (left.length + right.length : Nat) domain left []
      (reversedGroups (zeros ++ right)) (by rw [length_reversedGroups]; omega)
      (by rw [length_reversedGroups, List.length_append]; omega)
  rw [← reversedGroups_append, ← List.append_assoc, ← split, reversedGroups_groupsOf] at whole'
  rw [List.append_nil] at ran'
  have text : (joinGroups left ++ colon :: colon :: joinGroups right).reverse =
      (joinGroups right).reverse ++ colon :: colon :: (joinGroups left).reverse := by
    simp
  rw [text]
  refine ran.trans ?_
  rw [transcribe_colons, place, same, ran', ← canvas_done whole']
  rfl

theorem count_text (g : Group) : g.text.count colon = 0 :=
  List.count_eq_zero.mpr fun member => (text_spec member).1 rfl

theorem count_joinGroups (gs : List Group) : (joinGroups gs).count colon = gs.length - 1 := by
  induction gs with
  | nil => rfl
  | cons g gs ih =>
      cases gs with
      | nil => exact count_text g
      | cons h gs =>
          rw [joinGroups, List.count_append, count_text, List.count_cons_self, ih]
          simp

/-- The colons of a compressed text count the groups that it has. -/
theorem blocksOf_compressed (left right : List Group) :
    blocksOf (joinGroups left ++ colon :: colon :: joinGroups right) =
      (left.length + right.length : Nat) := by
  have count : (joinGroups left ++ colon :: colon :: joinGroups right).count colon =
      (left.length - 1) + (right.length - 1) + 2 := by
    rw [List.count_append, List.count_cons_self, List.count_cons_self, count_joinGroups, count_joinGroups]
    omega
  have head : (joinGroups left ++ colon :: colon :: joinGroups right).head? = some colon ↔ left = [] := by
    constructor
    · intro starts
      by_contra some'
      obtain ⟨d, more, text, digit⟩ := joinGroups_head some'
      rw [text] at starts
      exact digit (Option.some.inj starts)
    · rintro rfl
      rfl
  have last : (joinGroups left ++ colon :: colon :: joinGroups right).getLast? = some colon ↔
      right = [] := by
    rw [List.getLast?_eq_head?_reverse]
    constructor
    · intro ends
      by_contra some'
      obtain ⟨d, more, text, digit⟩ := joinGroups_reverse some'
      rw [List.reverse_append, List.reverse_cons, List.reverse_cons, text] at ends
      exact digit (Option.some.inj ends)
    · rintro rfl
      simp [joinGroups]
  rw [blocksOf, count]
  simp only [head, last]
  by_cases noLeft : left = []
  · by_cases noRight : right = []
    · simp [noLeft, noRight]
    · have positive := List.length_pos_iff.mpr noRight
      rw [if_pos noLeft, if_neg noRight, noLeft, List.length_nil]
      push_cast
      omega
  · have positive := List.length_pos_iff.mpr noLeft
    by_cases noRight : right = []
    · rw [if_neg noLeft, if_pos noRight, noRight, List.length_nil]
      push_cast
      omega
    · have positive' := List.length_pos_iff.mpr noRight
      rw [if_neg noLeft, if_neg noRight]
      push_cast
      omega

theorem map_toLower_spread (digits : Bytes) (fixed : ∀ d ∈ digits, toLower d = d) :
    (spread digits).map toLower = spread digits := by
  induction digits with
  | nil => rfl
  | cons d digits ih =>
      rw [spread_cons, List.map_cons, List.map_cons, fixed d (by simp),
        ih fun c member => fixed c (by simp [member])]
      rfl

theorem utilTolower_spread (a : In6Addr) (domain : Bytes) :
    utilTolower (spread (reversedDigits a) ++ domain) = expectedQuery a domain := by
  have fixed : ∀ d ∈ reversedDigits a, toLower d = d := by
    intro d member
    rw [reversedDigits, List.mem_reverse] at member
    obtain ⟨b, -, digit⟩ := List.mem_flatMap.mp member
    exact (byteDigits_spec digit).2.2
  rw [utilTolower, List.map_append, map_toLower_spread _ fixed]
  rfl

end Hexadecimal

/-! ## Texts with a dotted tail -/

section Dotted
variable {a : In6Addr} {domain : Bytes}

theorem octet_spec : ∀ n : Fin 256, (octet (UInt8.ofNat n)).length ≤ 3 ∧ dot ∉ octet (UInt8.ofNat n) ∧
    colon ∉ octet (UInt8.ofNat n) := by
  decide +kernel

theorem octet_short (b : UInt8) : (octet b).length ≤ 3 ∧ dot ∉ octet b ∧ colon ∉ octet b := by
  have spec := octet_spec ⟨b.toNat, b.toNat_lt⟩
  simpa only [UInt8.ofNat_toNat] using spec

theorem spread_getElem (digits tail : Bytes) : ∀ j < digits.length,
    (spread digits ++ tail)[2 * j]? = digits[j]? := by
  induction digits with
  | nil =>
      intro j inside
      cases inside
  | cons d digits ih =>
      intro j inside
      cases j with
      | zero => rfl
      | succ j =>
          have two : 2 * (j + 1) = 2 * j + 1 + 1 := by omega
          rw [two, spread_cons]
          simp only [List.cons_append, List.getElem?_cons_succ]
          exact ih j (by simpa using inside)

/-- The first dot from the end stays in a place of a digit. -/
theorem dotted_query {blocks : Int} (few : blocks ≤ 8) (b : UInt8) (more : Bytes) :
    (transcribe blocks ((octet b).reverse ++ dot :: more) 0 (zeroes ++ domain)).map utilTolower ≠
      some (expectedQuery a domain) := by
  obtain ⟨short, -, unread⟩ := octet_short b
  have length : (octet b).reverse.length ≤ 3 := by rwa [List.length_reverse]
  intro same
  obtain ⟨buffer, ran, lowered⟩ := Option.map_eq_some_iff.mp same
  have digits := transcribe_digits blocks domain (octet b).reverse (dot :: more)
    (fun c member colon' => unread (colon' ▸ List.mem_reverse.mp member)) [] (by
      simp only [List.length_nil]
      omega)
  rw [canvas_nil, List.nil_append] at digits
  have next : ((octet b).reverse.length : Int) + 1 = ((octet b).reverse ++ [dot]).length := by simp
  have first := ran
  rw [show (0 : Int) = (([] : Bytes).length : Int) from rfl, digits, transcribe_digit (by decide),
    writeDigit_canvas _ _ _ (by omega), Option.bind_some, next] at first
  have kept := transcribe_keeps few more _ _ _ (by omega) first (2 * (octet b).reverse.length) (by
    rw [List.length_append, List.length_singleton]
    push_cast
    omega)
  have here : (canvas ((octet b).reverse ++ [dot]) domain)[2 * (octet b).reverse.length]? = some dot := by
    have inside : (octet b).reverse.length < ((octet b).reverse ++ [dot] ++
        List.replicate (32 - ((octet b).reverse ++ [dot]).length) zeroDigit).length := by
      rw [List.length_append, List.length_append, List.length_singleton]
      omega
    rw [canvas, spread_getElem _ _ _ inside]
    simp
  have inQuery : (expectedQuery a domain)[2 * (octet b).reverse.length]? = some dot := by
    rw [← lowered, utilTolower, List.getElem?_map, kept, here]
    decide
  rw [expectedQuery, spread_getElem _ _ _ (by rw [length_reversedDigits]; omega)] at inQuery
  have member := List.mem_of_getElem? inQuery
  rw [reversedDigits, List.mem_reverse] at member
  obtain ⟨byte, -, digit⟩ := List.mem_flatMap.mp member
  exact (byteDigits_spec digit).2.1 rfl

theorem count_dotted (b1 b2 b3 b4 : UInt8) : (dotted b1 b2 b3 b4).count colon = 0 := by
  refine List.count_eq_zero.mpr ?_
  simp only [dotted, List.mem_append, List.mem_cons, not_or]
  refine ⟨(octet_short b1).2.2, by decide, (octet_short b2).2.2, by decide, (octet_short b3).2.2,
    by decide, (octet_short b4).2.2⟩

theorem dotted_reverse (front : Bytes) (b1 b2 b3 b4 : UInt8) :
    ∃ more, (front ++ dotted b1 b2 b3 b4).reverse = (octet b4).reverse ++ dot :: more := by
  refine ⟨(octet b3).reverse ++ dot :: ((octet b2).reverse ++ dot :: ((octet b1).reverse ++ front.reverse)),
    ?_⟩
  simp [dotted]

theorem blocksOf_le (addr : Bytes) : blocksOf addr ≤ addr.count colon := by
  unfold blocksOf
  split <;> split <;> omega

theorem dot_mem_dotted (b1 b2 b3 b4 : UInt8) : dot ∈ dotted b1 b2 b3 b4 := by
  simp [dotted]

theorem dot_not_mem_joinGroups (gs : List Group) : dot ∉ joinGroups gs := by
  induction gs with
  | nil => simp [joinGroups]
  | cons g gs ih =>
      have text : dot ∉ g.text := fun member => (text_spec member).2 rfl
      cases gs with
      | nil => exact text
      | cons h gs =>
          rw [joinGroups, List.mem_append, List.mem_cons]
          rintro (here | same | later)
          · exact text here
          · cases same
          · exact ih later

end Dotted

/-! ## All texts -/

theorem dnsblIpv6Query_eq {size : Int} {addr domain : Bytes}
    (passes : ¬ size < cInt (zeroes.length + domain.length + 1 : Nat)) (text : Bytes) :
    dnsblIpv6Query size addr domain = .query text ↔
      (transcribe (blocksOf addr) addr.reverse 0 (zeroes ++ domain)).map utilTolower = some text := by
  rw [dnsblIpv6Query, if_neg passes]
  cases transcribe (blocksOf addr) addr.reverse 0 (zeroes ++ domain) with
  | none => simp
  | some buffer => simp

/-- The query has the digits of the address in reverse order if and only if the text of
the address has no dotted tail. -/
theorem query_is_reversed_iff {size : Int} {a : In6Addr} {addr domain : Bytes} (text : TextOf a addr)
    (passes : ¬ size < cInt (zeroes.length + domain.length + 1 : Nat)) :
    dnsblIpv6Query size addr domain = .query (expectedQuery a domain) ↔ dot ∉ addr := by
  rw [dnsblIpv6Query_eq passes]
  cases text with
  | full =>
      refine iff_of_true ?_ (dot_not_mem_joinGroups _)
      rw [transcribe_full, Option.map_some, utilTolower_spread]
  | compressed left zeros right split zero =>
      refine iff_of_true ?_ ?_
      · rw [blocksOf_compressed, transcribe_compressed split zero, Option.map_some, utilTolower_spread]
      · simp only [List.mem_append, List.mem_cons, not_or]
        exact ⟨dot_not_mem_joinGroups left, by decide, by decide, dot_not_mem_joinGroups right⟩
  | compatible b1 b2 b3 b4 split =>
      obtain ⟨more, reversed⟩ := dotted_reverse [colon, colon] b1 b2 b3 b4
      have few : blocksOf (colon :: colon :: dotted b1 b2 b3 b4) ≤ 8 := by
        have le := blocksOf_le (colon :: colon :: dotted b1 b2 b3 b4)
        rw [List.count_cons_self, List.count_cons_self, count_dotted] at le
        omega
      refine iff_of_false ?_ (fun absent => absent (by simp [dot_mem_dotted]))
      change ¬ (transcribe _ ([colon, colon] ++ dotted b1 b2 b3 b4).reverse 0 _).map utilTolower = _
      rw [reversed]
      exact dotted_query few b4 more
  | mapped b1 b2 b3 b4 split =>
      obtain ⟨more, reversed⟩ := dotted_reverse (cstr "::ffff:") b1 b2 b3 b4
      have few : blocksOf (cstr "::ffff:" ++ dotted b1 b2 b3 b4) ≤ 8 := by
        have le := blocksOf_le (cstr "::ffff:" ++ dotted b1 b2 b3 b4)
        have three : (cstr "::ffff:").count colon = 3 := by decide
        rw [List.count_append, count_dotted, three] at le
        omega
      refine iff_of_false ?_ (fun absent => absent (by simp [dot_mem_dotted]))
      rw [reversed]
      exact dotted_query few b4 more

def loopback : In6Addr := ⟨List.replicate 15 0 ++ [1], rfl⟩

theorem text_of_loopback : TextOf loopback (cstr "::1") :=
  .compressed [] (List.replicate 7 ⟨0, 0⟩) [⟨0, 1⟩] (by decide) (by decide)

theorem loopback_is_reversed :
    dnsblIpv6Query 1024 (cstr "::1") (cstr "bl.example") =
      .query (expectedQuery loopback (cstr "bl.example")) := by
  refine (query_is_reversed_iff text_of_loopback ?_).mpr ?_
  · decide
  · decide

/-- The address ::ffff:1.2.3.4. -/
def mappedAddress : In6Addr := ⟨List.replicate 10 0 ++ [255, 255, 1, 2, 3, 4], rfl⟩

/-- The dots of the IPv4 address come into the query. -/
theorem mapped_address_has_dots :
    TextOf mappedAddress (cstr "::ffff:1.2.3.4") ∧
      dnsblIpv6Query 1024 (cstr "::ffff:1.2.3.4") (cstr "bl.example") =
        .query (cstr "4...3...2...1.0.f.f.f.f.0.0.0.0.0.0.0.0.0.0.0.0.0.0.0.0.0.0.0.0.bl.example") ∧
      dnsblIpv6Query 1024 (cstr "::ffff:1.2.3.4") (cstr "bl.example") ≠
        .query (expectedQuery mappedAddress (cstr "bl.example")) := by
  have text : TextOf mappedAddress (cstr "::ffff:1.2.3.4") := .mapped 1 2 3 4 rfl
  refine ⟨text, by decide, by decide⟩

end Mopher.Dnsbl
