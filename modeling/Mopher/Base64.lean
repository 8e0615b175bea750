import Mopher.Var

/-!
# Base64

Model of `base64.c`.  The decoder looks for padding at the end of the text from
behind and does not stop at its start, so the memory in front of the text is an
argument, nearest byte first.  A text that was encoded decodes to its data, except
that the empty text is refused when a `=` stands in front of it.
-/

set_option autoImplicit false

namespace Mopher

def encoder : Bytes :=
  cstr "ABCDEFGHIJKLMNOPQRSTUVWXYZabcdefghijklmnopqrstuvwxyz0123456789+/"

/-- The table that `base64_init_decoder` builds; `none` is -1. -/
def decoder (c : UInt8) : Option Nat := encoder.idxOf? c

def padChar : UInt8 := 61

/-! ## Encoding -/

/-- Four characters of one turn of the loop. -/
def encodeTriple (a b c : UInt8) : Bytes :=
  let triple := a.toNat * 65536 + b.toNat * 256 + c.toNat
  [triple / 262144 % 64, triple / 4096 % 64, triple / 64 % 64, triple % 64].map
    fun sextet => encoder.getD sextet 0

/-- The loop of `base64_encode`; bytes off the limit are 0. -/
def encodeLoop : Bytes → Bytes
  | [] => []
  | [a] => encodeTriple a 0 0
  | [a, b] => encodeTriple a b 0
  | a :: b :: c :: rest => encodeTriple a b c ++ encodeLoop rest

/-- `base64_encode` into a buffer that is large enough. -/
def base64Encode (src : Bytes) : Bytes :=
  let dest := encodeLoop src
  match src.length % 3 with
  | 1 => dest.take (dest.length - 2) ++ [padChar, padChar]
  | 2 => dest.take (dest.length - 1) ++ [padChar]
  | _ => dest

/-! ## Decoding -/

/-- How many `=` the memory has, going back from the end of the text. -/
def padding (front text : Bytes) : Nat :=
  ((text.reverse ++ front).takeWhile (· == padChar)).length

def base64Decsize (front text : Bytes) : Int :=
  (text.length / 4 * 3 : Nat) - (min (padding front text) 2 : Nat)

/-- One turn of the loop of `base64_decode`; at the end of the text the last two
characters may be padding. -/
def decodeQuad (last : Bool) (a b c d : UInt8) : Option Bytes :=
  let d' := if last && d == padChar then some 0 else decoder d
  let c' := if last && d == padChar && c == padChar then some 0 else decoder c
  match decoder a, decoder b, c', d' with
  | some a, some b, some c, some d =>
      let triple := a * 262144 + b * 4096 + c * 64 + d
      some [UInt8.ofNat (triple / 65536), UInt8.ofNat (triple / 256), UInt8.ofNat triple]
  | _, _, _, _ => none

def decodeLoop : Bytes → Option Bytes
  | a :: b :: c :: d :: rest => do
      let bytes ← decodeQuad rest.isEmpty a b c d
      return bytes ++ (← decodeLoop rest)
  | _ => some []

/-- `base64_decode` into a buffer of `size` bytes; `none` is -1.  What the loop does
not write is 0. -/
def base64Decode (front text : Bytes) (size : Nat) : Option Bytes :=
  if text = [] then if 0 < size then some [] else none
  else
    let slen : Int := text.length - (padding front text - 2 : Nat)
    if slen % 4 ≠ 0 then none
    else
      let dlen := base64Decsize front text
      if (size : Int) < dlen then none
      else
        (decodeLoop (text.take slen.toNat)).map fun dest =>
          (dest.take size ++ List.replicate size 0).take dlen.toNat

def base64DecMalloc (front text : Bytes) : Option Bytes :=
  let size := base64Decsize front text + 1
  if size < 0 then none else base64Decode front text size.toNat

example : base64Encode (cstr "Hello World") = cstr "SGVsbG8gV29ybGQ=" := by decide

/-! ## Sextets -/

theorem decoder_encoder : ∀ sextet : Fin 64, decoder (encoder.getD sextet 0) = some sextet.val := by
  decide +kernel

theorem padChar_unknown : decoder padChar = none := by decide

theorem encoder_ne_padChar (sextet : Fin 64) : encoder.getD sextet 0 ≠ padChar := by
  intro pad
  have known := decoder_encoder sextet
  rw [pad, padChar_unknown] at known
  cases known

theorem decoder_sextet (n : Nat) : decoder (encoder.getD (n % 64) 0) = some (n % 64) :=
  decoder_encoder ⟨n % 64, Nat.mod_lt n (by decide)⟩

theorem sextet_ne_padChar (n : Nat) : (encoder.getD (n % 64) 0 == padChar) = false :=
  beq_eq_false_iff_ne.mpr (encoder_ne_padChar ⟨n % 64, Nat.mod_lt n (by decide)⟩)

theorem length_encodeTriple (a b c : UInt8) : (encodeTriple a b c).length = 4 := rfl

/-- The bytes of a triple come out of its sextets. -/
theorem triple_bytes (a b c : UInt8) {triple : Nat}
    (same : triple = a.toNat * 65536 + b.toNat * 256 + c.toNat) :
    [UInt8.ofNat (triple / 65536), UInt8.ofNat (triple / 256), UInt8.ofNat triple] = [a, b, c] := by
  have small := a.toNat_lt
  have small' := b.toNat_lt
  have small'' := c.toNat_lt
  have first : UInt8.ofNat (triple / 65536) = a := by
    rw [← UInt8.toNat_inj, UInt8.toNat_ofNat']
    omega
  have second : UInt8.ofNat (triple / 256) = b := by
    rw [← UInt8.toNat_inj, UInt8.toNat_ofNat']
    omega
  have third : UInt8.ofNat triple = c := by
    rw [← UInt8.toNat_inj, UInt8.toNat_ofNat']
    omega
  rw [first, second, third]

theorem sextets_sum (a b c : UInt8) {triple : Nat}
    (same : triple = a.toNat * 65536 + b.toNat * 256 + c.toNat) :
    triple / 262144 % 64 * 262144 + triple / 4096 % 64 * 4096 + triple / 64 % 64 * 64 + triple % 64 =
      triple := by
  have small := a.toNat_lt
  have small' := b.toNat_lt
  have small'' := c.toNat_lt
  omega

/-- The characters of a triple, with the number they stand for kept under a name. -/
theorem encodeTriple_eq (a b c : UInt8) {triple : Nat}
    (same : triple = a.toNat * 65536 + b.toNat * 256 + c.toNat) :
    encodeTriple a b c =
      [encoder.getD (triple / 262144 % 64) 0, encoder.getD (triple / 4096 % 64) 0,
        encoder.getD (triple / 64 % 64) 0, encoder.getD (triple % 64) 0] := by
  subst same
  rfl

/-- Four characters without padding. -/
theorem decodeQuad_full (last : Bool) (a b c : UInt8) :
    ∃ w x y z, encodeTriple a b c = [w, x, y, z] ∧ (z == padChar) = false ∧
      decodeQuad last w x y z = some [a, b, c] := by
  obtain ⟨triple, same⟩ : ∃ triple, triple = a.toNat * 65536 + b.toNat * 256 + c.toNat := ⟨_, rfl⟩
  refine ⟨_, _, _, _, encodeTriple_eq a b c same, sextet_ne_padChar _, ?_⟩
  simp only [decodeQuad, sextet_ne_padChar, Bool.and_false, Bool.false_eq_true, if_false,
    decoder_sextet]
  rw [sextets_sum a b c same, triple_bytes a b c same]

/-- The last byte of two: its missing third is padding. -/
theorem decodeQuad_two (a b : UInt8) :
    ∃ w x y z, encodeTriple a b 0 = [w, x, y, z] ∧ (y == padChar) = false ∧
      decodeQuad true w x y padChar = some [a, b, 0] := by
  have zero : (0 : UInt8).toNat = 0 := rfl
  obtain ⟨triple, same⟩ : ∃ triple, triple = a.toNat * 65536 + b.toNat * 256 + (0 : UInt8).toNat :=
    ⟨_, rfl⟩
  refine ⟨_, _, _, _, encodeTriple_eq a b 0 same, sextet_ne_padChar _, ?_⟩
  have sum := sextets_sum a b 0 same
  have last : triple % 64 = 0 := by omega
  rw [last] at sum
  simp only [decodeQuad, sextet_ne_padChar, Bool.and_false, Bool.false_eq_true, if_false,
    decoder_sextet, beq_self_eq_true, Bool.and_true, if_true]
  rw [sum, triple_bytes a b 0 same]

theorem decodeQuad_one (a : UInt8) :
    ∃ w x y z, encodeTriple a 0 0 = [w, x, y, z] ∧ (x == padChar) = false ∧
      decodeQuad true w x padChar padChar = some [a, 0, 0] := by
  have zero : (0 : UInt8).toNat = 0 := rfl
  obtain ⟨triple, same⟩ :
      ∃ triple, triple = a.toNat * 65536 + (0 : UInt8).toNat * 256 + (0 : UInt8).toNat := ⟨_, rfl⟩
  refine ⟨_, _, _, _, encodeTriple_eq a 0 0 same, sextet_ne_padChar _, ?_⟩
  have sum := sextets_sum a 0 0 same
  have third : triple / 64 % 64 = 0 := by omega
  have last : triple % 64 = 0 := by omega
  rw [third, last] at sum
  simp only [decodeQuad, decoder_sextet, beq_self_eq_true, Bool.and_true, if_true]
  rw [sum, triple_bytes a 0 0 same]

/-! ## Whole texts -/

theorem length_encodeLoop (src : Bytes) : (encodeLoop src).length = 4 * ((src.length + 2) / 3) := by
  induction src using encodeLoop.induct with
  | case1 => rfl
  | case2 a => simp [encodeLoop, length_encodeTriple]
  | case3 a b => simp [encodeLoop, length_encodeTriple]
  | case4 a b c rest ih =>
      rw [encodeLoop, List.length_append, ih, length_encodeTriple]
      simp only [List.length_cons]
      omega

theorem base64Encode_cons (a b c : UInt8) (rest : Bytes) :
    base64Encode (a :: b :: c :: rest) = encodeTriple a b c ++ base64Encode rest := by
  have length := length_encodeLoop rest
  have same : (a :: b :: c :: rest).length % 3 = rest.length % 3 := by
    simp only [List.length_cons]
    omega
  -- the padding replaces characters of the rest
  have front (n : Nat) (enough : n ≤ (encodeLoop rest).length) :
      (encodeTriple a b c ++ encodeLoop rest).take
          ((encodeTriple a b c ++ encodeLoop rest).length - n) =
        encodeTriple a b c ++ (encodeLoop rest).take ((encodeLoop rest).length - n) := by
    rw [List.take_append, List.take_of_length_le]
    · congr 2
      rw [List.length_append]
      omega
    · rw [List.length_append]
      omega
  unfold base64Encode
  rw [same]
  simp only [encodeLoop]
  have small : rest.length % 3 < 3 := Nat.mod_lt _ (by decide)
  obtain zero | one | two : rest.length % 3 = 0 ∨ rest.length % 3 = 1 ∨ rest.length % 3 = 2 := by
    omega
  · simp only [zero]
  · simp only [one]
    rw [front 2 (by omega), List.append_assoc]
  · simp only [two]
    rw [front 1 (by omega), List.append_assoc]

theorem length_base64Encode (src : Bytes) :
    (base64Encode src).length = 4 * ((src.length + 2) / 3) := by
  have length := length_encodeLoop src
  unfold base64Encode
  simp only []
  split
  · rw [List.length_append, List.length_take]
    simp only [List.length_cons, List.length_nil]
    omega
  · rw [List.length_append, List.length_take]
    simp only [List.length_cons, List.length_nil]
    omega
  · exact length

/-- The bytes that are missing to a multiple of three. -/
def missing (src : Bytes) : Nat := (3 - src.length % 3) % 3

theorem missing_cons (a b c : UInt8) (rest : Bytes) : missing (a :: b :: c :: rest) = missing rest := by
  unfold missing
  simp only [List.length_cons]
  omega

theorem padding_append (front before text : Bytes) :
    padding front (before ++ text) = padding (before.reverse ++ front) text := by
  unfold padding
  rw [List.reverse_append, List.append_assoc]

/-- The padding of an encoded text ends inside the text. -/
theorem padding_base64Encode (src : Bytes) : src ≠ [] → ∀ front,
    padding front (base64Encode src) = missing src := by
  induction src using encodeLoop.induct with
  | case1 => intro absurd; exact (absurd rfl).elim
  | case2 a =>
      intro _ front
      obtain ⟨w, x, y, z, triple, unpadded, _⟩ := decodeQuad_one a
      simp [base64Encode, encodeLoop, triple, padding, missing, unpadded]
  | case3 a b =>
      intro _ front
      obtain ⟨w, x, y, z, triple, unpadded, _⟩ := decodeQuad_two a b
      simp [base64Encode, encodeLoop, triple, padding, missing, unpadded]
  | case4 a b c rest ih =>
      intro _ front
      rw [base64Encode_cons, missing_cons]
      by_cases done : rest = []
      · subst done
        obtain ⟨w, x, y, z, triple, unpadded, _⟩ := decodeQuad_full true a b c
        simp [base64Encode, encodeLoop, triple, padding, missing, unpadded]
      · rw [padding_append]
        exact ih done _

theorem decodeLoop_base64Encode (src : Bytes) :
    decodeLoop (base64Encode src) = some (src ++ List.replicate (missing src) 0) := by
  induction src using encodeLoop.induct with
  | case1 => rfl
  | case2 a =>
      obtain ⟨w, x, y, z, triple, _, decoded⟩ := decodeQuad_one a
      simp [base64Encode, encodeLoop, triple, missing, decodeLoop, decoded]
  | case3 a b =>
      obtain ⟨w, x, y, z, triple, _, decoded⟩ := decodeQuad_two a b
      simp [base64Encode, encodeLoop, triple, missing, decodeLoop, decoded]
  | case4 a b c rest ih =>
      obtain ⟨w, x, y, z, triple, _, decoded⟩ := decodeQuad_full (base64Encode rest).isEmpty a b c
      rw [base64Encode_cons, triple, missing_cons]
      simp [decodeLoop, decoded, ih]

/-- The empty text is accepted exactly when no padding stands in front of it. -/
theorem base64DecMalloc_nil (front : Bytes) :
    base64DecMalloc front [] = if front.head? = some padChar then none else some [] := by
  have size : base64Decsize front [] = -(min (padding front []) 2 : Nat) := by
    unfold base64Decsize
    simp
  unfold base64DecMalloc
  rw [size]
  cases front with
  | nil => rfl
  | cons c front =>
      by_cases pad : c = padChar
      · have some' : 0 < padding (c :: front) [] := by
          simp [padding, pad]
        simp only [List.head?_cons, pad, if_true]
        rw [pad] at some'
        by_cases two : padding (padChar :: front) [] < 2
        · have one : padding (padChar :: front) [] = 1 := by omega
          rw [one]
          rfl
        · rw [min_eq_right (by omega)]
          rfl
      · have none' : padding (c :: front) [] = 0 := by
          simp [padding, pad]
        have unpadded : ¬ (c :: front).head? = some padChar := by
          simp [pad]
        rw [none', if_neg unpadded]
        rfl

theorem base64Decsize_base64Encode {data : Bytes} (present : data ≠ []) (front : Bytes) :
    base64Decsize front (base64Encode data) = data.length := by
  have nonempty : 0 < data.length := List.length_pos_iff.mpr present
  unfold base64Decsize
  rw [padding_base64Encode data present, length_base64Encode]
  unfold missing
  omega

/-- What was encoded is decoded, unless it is empty and the memory in front of the
text goes on with padding. -/
theorem base64DecMalloc_base64Encode (front data : Bytes) :
    base64DecMalloc front (base64Encode data) =
      if data = [] ∧ front.head? = some padChar then none else some data := by
  by_cases empty : data = []
  · subst empty
    have coded : base64Encode [] = [] := rfl
    rw [coded, base64DecMalloc_nil]
    simp only [true_and]
  · have nonempty : 0 < data.length := List.length_pos_iff.mpr empty
    have length := length_base64Encode data
    have text : base64Encode data ≠ [] := by
      intro none'
      rw [none', List.length_nil] at length
      omega
    have pads : padding front (base64Encode data) - 2 = 0 := by
      rw [padding_base64Encode data empty]
      unfold missing
      omega
    have aligned : ((base64Encode data).length : Int) % 4 = 0 := by
      rw [length]
      omega
    have size : ¬ ((data.length : Int) + 1 < 0) := by omega
    have room : ¬ (((data.length : Int) + 1).toNat : Int) < data.length := by omega
    unfold base64DecMalloc
    simp only [base64Decsize_base64Encode empty]
    rw [if_neg size, if_neg fun both => empty both.1]
    unfold base64Decode
    simp only [base64Decsize_base64Encode empty, text, pads, if_false, Nat.cast_zero, sub_zero, aligned,
      ne_eq, not_true, room, Int.toNat_natCast, List.take_length]
    rw [decodeLoop_base64Encode]
    -- the buffer has room for one more byte than the data has
    have buffer : ((data.length : Int) + 1).toNat = data.length + 1 := by omega
    have covered : data.length ≤
        ((data ++ List.replicate (missing data) 0).take (data.length + 1)).length := by
      rw [List.length_take, List.length_append]
      omega
    rw [buffer, Option.map_some, List.take_append_of_le_length covered, List.take_take,
      min_eq_left (by omega), List.take_left']
    rfl

end Mopher
