import Mopher.Base64
import Mopher.Lib.CBuffer

/-!
# Base64 in buffers

`base64.c` and the dump of a blob once more, with the buffers that the functions fill and
the places where they read.  A read outside of the text or of the decoder table stops the
model with a fault.  Lengths are `int`s; the pointers are not null.

An encoded text is the text of RFC 4648, and it is decoded to the bytes it was made of.
-/

set_option autoImplicit false

namespace Mopher

open CBuffer

/-! ## Encoding -/

def base64Encsize (size : Int) : Int := cInt (4 * (cInt (size + 2)).tdiv 3)

/-- The `switch` that pads the end. -/
def padInto (slen j : Int) (dest : Writes) : Writes :=
  if slen.tmod 3 = 1 then put (put dest (j - 2) padChar) (j - 1) padChar
  else if slen.tmod 3 = 2 then put dest (j - 1) padChar
  else dest

/-- `base64_encode`: what is returned, and what is written to the buffer. -/
def base64EncodeInto (size : Int) (src : Bytes) (slen : Int) : Int × Writes :=
  let dlen := base64Encsize slen
  if size < cInt (dlen + 1) then (-1, untouched)
  else if slen = 0 then if 0 < size then (0, put untouched 0 0) else (-1, untouched)
  else
    let chars := encodeLoop (src.take slen.toNat)
    let j : Int := chars.length
    (dlen, put (padInto slen j (puts untouched 0 chars)) j 0)

/-- `base64_enc_malloc`, if `malloc` succeeds. -/
def base64EncMalloc (src : Bytes) (slen : Int) : Option Writes :=
  let (size, buffer) := base64EncodeInto (cInt (base64Encsize slen + 1)) src slen
  if size = -1 then none else some buffer

/-- `blob_dump`; a blob has its length as a `long`. -/
def blobDump (size : Int) (data : Bytes) : Int × Writes :=
  base64EncodeInto size data (cInt data.length)

/-! ## Decoding -/

/-- A read outside of the text, or outside of the table. -/
inductive Base64Fault where
  | source (index : Int)
  | table (index : Int)
deriving Repr, DecidableEq

/-- The index of a character in the table: a `char` has a sign. -/
def charIndex (c : UInt8) : Int := if c.toNat < 128 then c.toNat else (c.toNat : Int) - 256

/-- The table is read at the index of a character. -/
def readTable (c : UInt8) : Except Base64Fault Unit :=
  if 0 ≤ charIndex c ∧ charIndex c ≤ 255 then .ok () else .error (.table (charIndex c))

/-- The loop that counts padding from a place on backwards. -/
def countPadding (src : Bytes) : Nat → Except Base64Fault Nat
  | 0 => .error (.source (-1))
  | n + 1 =>
      if src[n]? = some padChar then (countPadding src n).map (· + 1) else .ok 0

/-- The padding in front of the end of the text. -/
def readPadding (src : Bytes) (slen : Int) : Except Base64Fault Nat :=
  if slen ≤ 0 then .error (.source (slen - 1)) else countPadding src slen.toNat

def readDecsize (src : Bytes) : Except Base64Fault Int := do
  let slen := cInt src.length
  let i ← readPadding src slen
  return slen.tdiv 4 * 3 - (if 2 ≤ i then 2 else i)

/-- The loop of `base64_decode`: whether all characters are in the alphabet, and what was
written. -/
def decodeGroups (size : Int) : Bytes → Int × Writes → Except Base64Fault (Bool × Writes)
  | a :: b :: c :: d :: rest, dest => do
      readTable a
      readTable b
      readTable c
      readTable d
      match decodeQuad rest.isEmpty a b c d with
      | none => return (false, dest.2)
      | some bytes => decodeGroups size rest (bytes.foldl (store size) dest)
  | _, dest => .ok (true, dest.2)

/-- `base64_decode`. -/
def base64DecodeInto (size : Int) (src : Bytes) : Except Base64Fault (Int × Writes) :=
  let slen := cInt src.length
  if slen = 0 then if 0 < size then .ok (0, put untouched 0 0) else .ok (-1, untouched)
  else do
    let padlen ← readPadding src slen
    let slen := if 2 < padlen then slen - (padlen - 2) else slen
    if slen.tmod 4 ≠ 0 then return (-1, untouched)
    let dlen ← readDecsize src
    if size < dlen then return (-1, untouched)
    let (valid, dest) ← decodeGroups size (src.take slen.toNat) (0, untouched)
    if valid then return (dlen, dest) else return (-1, dest)

/-- `base64_dec_malloc`. -/
def base64DecMallocInto (allocated : Bool) (src : Bytes) :
    Except Base64Fault (Option (Int × Writes)) := do
  let size := (← readDecsize src) + 1
  if size < 0 then return none
  if !allocated then return none
  let (n, dest) ← base64DecodeInto size src
  if n = -1 then return none else return some (n, dest)

/-- `blob_scan`: the data of the blob. -/
def blobScanInto (junk : Nat → UInt8) (text : Bytes) : Except Base64Fault (Option Bytes) := do
  match ← base64DecMallocInto true text with
  | none => return none
  | some (size, buffer) => return some (contents junk buffer size.toNat)

/-! ## The text of RFC 4648 -/

/-- The bits of a byte, the highest first. -/
def byteBits (b : UInt8) : List Bool := (List.range 8).map fun i => b.toNat.testBit (7 - i)

def bitsValue (bits : List Bool) : Nat := bits.foldl (fun n bit => 2 * n + bit.toNat) 0

/-- Groups of six bits; zeros are added to the last one. -/
def sextets : List Bool → List Nat
  | a :: b :: c :: d :: e :: f :: rest => bitsValue [a, b, c, d, e, f] :: sextets rest
  | [] => []
  | bits => [bitsValue ((bits ++ List.replicate 6 false).take 6)]

/-- The bits of the data in groups of six, each as a character of the alphabet, and
padding up to a multiple of four characters. -/
def rfc4648 (data : Bytes) : Bytes :=
  let chars := (sextets (data.flatMap byteBits)).map fun n => encoder.getD n 0
  chars ++ List.replicate ((4 - chars.length % 4) % 4) padChar

theorem bitsValue_append (front back : List Bool) :
    bitsValue (front ++ back) = bitsValue front * 2 ^ back.length + bitsValue back := by
  have shift : ∀ (bits : List Bool) (n : Nat),
      bits.foldl (fun n bit => 2 * n + bit.toNat) n = n * 2 ^ bits.length + bitsValue bits := by
    intro bits
    induction bits with
    | nil => intro n; simp [bitsValue]
    | cons bit bits ih =>
        intro n
        rw [bitsValue, List.foldl_cons, List.foldl_cons, ih, ih (2 * 0 + bit.toNat), List.length_cons,
          Nat.pow_succ]
        ring
  rw [bitsValue, List.foldl_append]
  exact shift back (bitsValue front)

/-- The lowest `k` bits of a number, the highest of them first, are worth its remainder. -/
theorem bitsValue_testBits (n k : Nat) :
    bitsValue ((List.range k).map fun i => n.testBit (k - 1 - i)) = n % 2 ^ k := by
  induction k with
  | zero => simp [bitsValue, Nat.mod_one]
  | succ k ih =>
      have rest : (List.range k).map ((fun i => n.testBit (k + 1 - 1 - i)) ∘ Nat.succ) =
          (List.range k).map fun i => n.testBit (k - 1 - i) := by
        apply List.map_congr_left
        intro i _
        rw [Function.comp_apply]
        congr 1
        omega
      have first : bitsValue [n.testBit k] = n / 2 ^ k % 2 := by
        rw [Nat.testBit_eq_decide_div_mod_eq]
        rcases Nat.mod_two_eq_zero_or_one (n / 2 ^ k) with even | odd
        · rw [even]
          rfl
        · rw [odd]
          rfl
      rw [List.range_succ_eq_map, List.map_cons, List.map_map, rest, ← List.singleton_append,
        bitsValue_append, ih, List.length_map, List.length_range, Nat.mod_pow_succ]
      show bitsValue [n.testBit k] * 2 ^ k + n % 2 ^ k = _
      rw [first, Nat.mul_comm, Nat.add_comm]

/-- The first bits of a byte are its quotient, the others its remainder. -/
theorem byteBits_take (b : UInt8) {k : Nat} (few : k ≤ 8) :
    bitsValue ((byteBits b).take k) = b.toNat / 2 ^ (8 - k) := by
  have high : (byteBits b).take k =
      (List.range k).map fun i => (b.toNat / 2 ^ (8 - k)).testBit (k - 1 - i) := by
    rw [byteBits, ← List.map_take, List.take_range, Nat.min_eq_left few]
    apply List.map_congr_left
    intro i inside
    rw [List.mem_range] at inside
    rw [Nat.testBit_div_two_pow]
    congr 1
    omega
  have small : b.toNat / 2 ^ (8 - k) < 2 ^ k := by
    apply Nat.div_lt_of_lt_mul
    rw [← Nat.pow_add, Nat.sub_add_cancel few]
    exact b.toNat_lt
  rw [high, bitsValue_testBits, Nat.mod_eq_of_lt small]

theorem byteBits_drop (b : UInt8) (k : Nat) :
    bitsValue ((byteBits b).drop k) = b.toNat % 2 ^ (8 - k) := by
  have low : (byteBits b).drop k =
      (List.range (8 - k)).map fun i => b.toNat.testBit (8 - k - 1 - i) := by
    rw [byteBits, ← List.map_drop, List.range_eq_range', List.drop_range',
      List.range'_eq_map_range, List.map_map]
    apply List.map_congr_left
    intro i _
    rw [Function.comp_apply]
    congr 1
    omega
  rw [low, bitsValue_testBits]

theorem byteBits_parts (b : UInt8) :
    (byteBits b).length = 8 ∧
    bitsValue ((byteBits b).take 6) = b.toNat / 4 ∧ bitsValue ((byteBits b).drop 6) = b.toNat % 4 ∧
    bitsValue ((byteBits b).take 4) = b.toNat / 16 ∧ bitsValue ((byteBits b).drop 4) = b.toNat % 16 ∧
    bitsValue ((byteBits b).take 2) = b.toNat / 64 ∧ bitsValue ((byteBits b).drop 2) = b.toNat % 64 :=
  ⟨rfl, byteBits_take b (by decide), byteBits_drop b 6, byteBits_take b (by decide),
    byteBits_drop b 4, byteBits_take b (by decide), byteBits_drop b 2⟩

/-- The four sextets of three bytes. -/
theorem sextets_triple (a b c : UInt8) (rest : List Bool) :
    sextets (byteBits a ++ (byteBits b ++ (byteBits c ++ rest))) =
      [a.toNat / 4, a.toNat % 4 * 16 + b.toNat / 16, b.toNat % 16 * 4 + c.toNat / 64, c.toNat % 64] ++
        sextets rest := by
  have groups : sextets (byteBits a ++ (byteBits b ++ (byteBits c ++ rest))) =
      bitsValue ((byteBits a).take 6) :: bitsValue ((byteBits a).drop 6 ++ (byteBits b).take 4) ::
        bitsValue ((byteBits b).drop 4 ++ (byteBits c).take 2) :: bitsValue ((byteBits c).drop 2) ::
          sextets rest := rfl
  obtain ⟨-, firstA, lastA, -, -, -, -⟩ := byteBits_parts a
  obtain ⟨lengthB, -, -, firstB, lastB, -, -⟩ := byteBits_parts b
  obtain ⟨lengthC, -, -, -, -, firstC, lastC⟩ := byteBits_parts c
  rw [groups, bitsValue_append, bitsValue_append, List.length_take, List.length_take, lengthB, lengthC,
    firstA, lastA, firstB, lastB, firstC, lastC]
  rfl

theorem sextets_two (a b : UInt8) : sextets (byteBits a ++ byteBits b) =
    [a.toNat / 4, a.toNat % 4 * 16 + b.toNat / 16, b.toNat % 16 * 4] := by
  have groups : sextets (byteBits a ++ byteBits b) =
      [bitsValue ((byteBits a).take 6), bitsValue ((byteBits a).drop 6 ++ (byteBits b).take 4),
        bitsValue ((byteBits b).drop 4 ++ [false, false])] := rfl
  obtain ⟨-, firstA, lastA, -, -, -, -⟩ := byteBits_parts a
  obtain ⟨lengthB, -, -, firstB, lastB, -, -⟩ := byteBits_parts b
  rw [groups, bitsValue_append, bitsValue_append, List.length_take, lengthB, firstA, lastA, firstB, lastB]
  rfl

theorem sextets_one (a : UInt8) : sextets (byteBits a) = [a.toNat / 4, a.toNat % 4 * 16] := by
  have groups : sextets (byteBits a) =
      [bitsValue ((byteBits a).take 6),
        bitsValue ((byteBits a).drop 6 ++ [false, false, false, false])] := rfl
  obtain ⟨-, firstA, lastA, -, -, -, -⟩ := byteBits_parts a
  rw [groups, bitsValue_append, firstA, lastA]
  rfl

theorem encodeTriple_sextets (a b c : UInt8) :
    encodeTriple a b c =
      [a.toNat / 4, a.toNat % 4 * 16 + b.toNat / 16, b.toNat % 16 * 4 + c.toNat / 64,
        c.toNat % 64].map fun n => encoder.getD n 0 := by
  obtain ⟨triple, same⟩ : ∃ triple, triple = a.toNat * 65536 + b.toNat * 256 + c.toNat := ⟨_, rfl⟩
  have smallA := a.toNat_lt
  have smallB := b.toNat_lt
  have smallC := c.toNat_lt
  have first : triple / 262144 % 64 = a.toNat / 4 := by omega
  have second : triple / 4096 % 64 = a.toNat % 4 * 16 + b.toNat / 16 := by omega
  have third : triple / 64 % 64 = b.toNat % 16 * 4 + c.toNat / 64 := by omega
  have fourth : triple % 64 = c.toNat % 64 := by omega
  rw [encodeTriple_eq a b c same, first, second, third, fourth]
  rfl

theorem rfc4648_cons (a b c : UInt8) (rest : Bytes) :
    rfc4648 (a :: b :: c :: rest) = encodeTriple a b c ++ rfc4648 rest := by
  have chars : (sextets ((a :: b :: c :: rest).flatMap byteBits)).map (fun n => encoder.getD n 0) =
      encodeTriple a b c ++ (sextets (rest.flatMap byteBits)).map fun n => encoder.getD n 0 := by
    rw [List.flatMap_cons, List.flatMap_cons, List.flatMap_cons, sextets_triple, List.map_append,
      encodeTriple_sextets]
  have four (n : Nat) : (4 - (4 + n) % 4) % 4 = (4 - n % 4) % 4 := by omega
  unfold rfc4648
  simp only [chars]
  rw [List.length_append, length_encodeTriple, four, List.append_assoc]

/-- The program writes the text of the RFC. -/
theorem base64Encode_eq_rfc4648 (data : Bytes) : base64Encode data = rfc4648 data := by
  induction data using encodeLoop.induct with
  | case1 => rfl
  | case2 a =>
      have zero : (0 : UInt8).toNat = 0 := rfl
      have coded : base64Encode [a] = (encodeTriple a 0 0).take 2 ++ [padChar, padChar] := rfl
      have text : (sextets ([a].flatMap byteBits)).map (fun n => encoder.getD n 0) =
          [a.toNat / 4, a.toNat % 4 * 16].map fun n => encoder.getD n 0 := by
        rw [List.flatMap_singleton, sextets_one]
      rw [coded, encodeTriple_sextets, zero, rfc4648, text]
      rfl
  | case3 a b =>
      have zero : (0 : UInt8).toNat = 0 := rfl
      have coded : base64Encode [a, b] = (encodeTriple a b 0).take 3 ++ [padChar] := rfl
      have text : (sextets ([a, b].flatMap byteBits)).map (fun n => encoder.getD n 0) =
          [a.toNat / 4, a.toNat % 4 * 16 + b.toNat / 16, b.toNat % 16 * 4].map
            fun n => encoder.getD n 0 := by
        rw [List.flatMap_cons, List.flatMap_singleton, sextets_two]
      rw [coded, encodeTriple_sextets, zero, rfc4648, text]
      rfl
  | case4 a b c rest ih => rw [base64Encode_cons, rfc4648_cons, ih]

/-! ## The encoder -/

section Encode
variable {data : Bytes}

theorem base64Encsize_eq {length : Nat} (short : 4 * ((length + 2) / 3) < 2 ^ 31) :
    base64Encsize length = 4 * ((length + 2) / 3 : Nat) := by
  unfold base64Encsize
  have sum : cInt ((length : Int) + 2) = length + 2 := cInt_of_bounds (by omega) (by omega)
  have quotient : ((length : Int) + 2).tdiv 3 = ((length + 2) / 3 : Nat) := by
    rw [Int.tdiv_eq_ediv_of_nonneg (by omega)]
    push_cast
    rfl
  rw [sum, quotient, cInt_of_bounds (by omega) (by omega)]

theorem encodeLoop_last (some' : data ≠ []) : ∃ front x y, encodeLoop data = front ++ [x, y] := by
  have nonempty := List.length_pos_iff.mpr some'
  have four := length_encodeLoop data
  have last : ((encodeLoop data).drop ((encodeLoop data).length - 2)).length = 2 := by
    rw [List.length_drop]
    omega
  obtain ⟨x, y, two⟩ := List.length_eq_two.mp last
  refine ⟨(encodeLoop data).take ((encodeLoop data).length - 2), x, y, ?_⟩
  rw [← two, List.take_append_drop]

/-- The last characters are written again as padding. -/
theorem puts_padInto (some' : data ≠ []) :
    padInto data.length (encodeLoop data).length (puts untouched 0 (encodeLoop data)) =
      puts untouched 0 (base64Encode data) := by
  obtain ⟨front, x, y, split⟩ := encodeLoop_last some'
  have last : (((front ++ [x, y]).length : Nat) : Int) - 1 = 0 + (front.length + 1 : Nat) := by
    rw [List.length_append, List.length_cons, List.length_singleton]
    omega
  have beforeLast : (((front ++ [x, y]).length : Nat) : Int) - 2 = 0 + (front.length : Nat) := by
    rw [List.length_append, List.length_cons, List.length_singleton]
    omega
  have two' : (front ++ [x, y]).length - 2 = front.length := by simp
  have one' : (front ++ [x, y]).length - 1 = (front ++ [x]).length := by simp
  unfold padInto base64Encode
  rw [Int.tmod_eq_emod_of_nonneg (by omega), split]
  have small : data.length % 3 < 3 := Nat.mod_lt _ (by decide)
  obtain zero | one | two : data.length % 3 = 0 ∨ data.length % 3 = 1 ∨ data.length % 3 = 2 := by
    omega
  · rw [if_neg (by omega), if_neg (by omega)]
    simp only [zero]
  · rw [if_pos (by omega), beforeLast, put_puts (by simp), last, put_puts (by simp)]
    simp only [one, two', List.take_left]
    congr 1
    simp [List.set_append_right]
  · rw [if_neg (by omega), if_pos (by omega), last, put_puts (by simp)]
    simp only [two, one']
    congr 1
    rw [← List.singleton_append, ← List.append_assoc, List.take_left]
    simp [List.set_append_right]

/-- With room for the text and its NUL the encoder writes both. -/
theorem base64EncodeInto_eq {size : Int} (short : (base64Encode data).length < 2 ^ 31)
    (room : ((base64Encode data).length : Int) + 1 ≤ size) :
    base64EncodeInto size data data.length =
      (((base64Encode data).length : Int), puts untouched 0 (base64Encode data ++ [0])) := by
  have four := length_base64Encode data
  have passes : ¬ size < cInt ((4 * ((data.length + 2) / 3) : Nat) + 1) := by
    rw [cInt_of_bounds (by omega) (by omega)]
    omega
  have quadruple : (4 * ((data.length + 2) / 3 : Nat) : Int) = (4 * ((data.length + 2) / 3) : Nat) := by
    push_cast
    rfl
  unfold base64EncodeInto
  rw [base64Encsize_eq (by omega), quadruple]
  simp only [passes, if_false]
  by_cases empty : data = []
  · subst empty
    have positive : 0 < size := by
      have nothing : (base64Encode []).length = 0 := rfl
      omega
    simp only [List.length_nil, Nat.cast_zero, if_true, positive]
    rfl
  · have nonempty := List.length_pos_iff.mpr empty
    have chars := length_encodeLoop data
    have place : ((encodeLoop data).length : Int) = 0 + (base64Encode data).length := by omega
    rw [if_neg (by omega), Int.toNat_natCast, List.take_length, puts_padInto empty, puts_append, place, four]
    rfl

theorem base64EncMalloc_of {src : Bytes} {slen size n : Int} {buffer : Writes}
    (same : cInt (base64Encsize slen + 1) = size) (encoded : base64EncodeInto size src slen = (n, buffer))
    (done : n ≠ -1) : base64EncMalloc src slen = some buffer := by
  unfold base64EncMalloc
  rw [same, encoded]
  exact if_neg done

theorem base64EncMalloc_eq (short : (base64Encode data).length < 2 ^ 31) :
    base64EncMalloc data data.length = some (puts untouched 0 (base64Encode data ++ [0])) := by
  have length := length_base64Encode data
  have size : cInt (base64Encsize data.length + 1) = (base64Encode data).length + 1 := by
    rw [base64Encsize_eq (by omega), cInt_of_bounds (by omega) (by omega)]
    omega
  exact base64EncMalloc_of size (base64EncodeInto_eq short (Int.le_refl _)) (by omega)

theorem blobDump_eq {size : Int} (short : (base64Encode data).length < 2 ^ 31)
    (room : ((base64Encode data).length : Int) + 1 ≤ size) :
    blobDump size data =
      (((base64Encode data).length : Int), puts untouched 0 (base64Encode data ++ [0])) := by
  have length := length_base64Encode data
  unfold blobDump
  rw [cInt_of_bounds (by omega) (by omega), base64EncodeInto_eq short room]

end Encode

/-! ## The decoder -/

section Decode
variable {src text : Bytes}

theorem readTable_ascii {c : UInt8} (ascii : c.toNat < 128) : readTable c = .ok () := by
  unfold readTable charIndex
  rw [if_pos ascii, if_pos (by omega)]

theorem readTable_high {c : UInt8} (high : ¬ c.toNat < 128) : ∃ fault, readTable c = .error fault := by
  have small := c.toNat_lt
  unfold readTable charIndex
  rw [if_neg high, if_neg (by omega)]
  exact ⟨_, rfl⟩

theorem encoder_chars : ∀ c ∈ encoder, c ≠ 0 ∧ c.toNat < 128 := by
  have checked : (encoder.all fun c => c ≠ 0 ∧ c.toNat < 128) = true := by decide
  simpa only [List.all_eq_true, decide_eq_true_eq] using checked

theorem encoder_ascii (c : UInt8) (known : c ∈ encoder) : c.toNat < 128 := (encoder_chars c known).2

theorem decoder_mem {c : UInt8} : c ∈ encoder ↔ (decoder c).isSome = true := by
  rw [decoder, List.isSome_idxOf?]

theorem decoder_ascii {c : UInt8} (known : (decoder c).isSome = true) : c.toNat < 128 :=
  encoder_ascii c (decoder_mem.mpr known)

/-- A group that is decoded has characters of the alphabet and padding. -/
theorem decodeQuad_known {last : Bool} {a b c d : UInt8} {bytes : Bytes}
    (decoded : decodeQuad last a b c d = some bytes) :
    (decoder a).isSome = true ∧ (decoder b).isSome = true ∧
      ((decoder c).isSome = true ∨ (last = true ∧ d = padChar ∧ c = padChar)) ∧
      ((decoder d).isSome = true ∨ (last = true ∧ d = padChar)) ∧ bytes.length = 3 := by
  unfold decodeQuad at decoded
  simp only [] at decoded
  split at decoded
  · next a' b' c' d' first second third fourth =>
      cases decoded
      refine ⟨by rw [first]; rfl, by rw [second]; rfl, ?_, ?_, rfl⟩
      · split at third
        · next both =>
            simp only [Bool.and_eq_true, beq_iff_eq] at both
            exact .inr ⟨both.1.1, both.1.2, both.2⟩
        · exact .inl (by rw [third]; rfl)
      · split at fourth
        · next both =>
            simp only [Bool.and_eq_true, beq_iff_eq] at both
            exact .inr both
        · exact .inl (by rw [fourth]; rfl)
  · cases decoded

theorem padChar_ascii : padChar.toNat < 128 := by decide

theorem decodeQuad_ascii {last : Bool} {a b c d : UInt8} {bytes : Bytes}
    (decoded : decodeQuad last a b c d = some bytes) :
    a.toNat < 128 ∧ b.toNat < 128 ∧ c.toNat < 128 ∧ d.toNat < 128 := by
  obtain ⟨first, second, third, fourth, -⟩ := decodeQuad_known decoded
  refine ⟨decoder_ascii first, decoder_ascii second, ?_, ?_⟩
  · rcases third with known | ⟨-, -, pad⟩
    · exact decoder_ascii known
    · exact pad ▸ padChar_ascii
  · rcases fourth with known | ⟨-, pad⟩
    · exact decoder_ascii known
    · exact pad ▸ padChar_ascii

theorem decodeGroups_ascii {a b c d : UInt8} (ascii : a.toNat < 128 ∧ b.toNat < 128 ∧ c.toNat < 128 ∧
    d.toNat < 128) (size : Int) (rest : Bytes) (dest : Int × Writes) :
    decodeGroups size (a :: b :: c :: d :: rest) dest =
      match decodeQuad rest.isEmpty a b c d with
      | none => .ok (false, dest.2)
      | some bytes => decodeGroups size rest (bytes.foldl (store size) dest) := by
  obtain ⟨first, second, third, fourth⟩ := ascii
  rw [decodeGroups, readTable_ascii first, readTable_ascii second, readTable_ascii third,
    readTable_ascii fourth]
  rfl

/-- Four characters at a time. -/
theorem four_induction {motive : Bytes → Prop} (short : ∀ text : Bytes, text.length < 4 → motive text)
    (group : ∀ a b c d rest, motive rest → motive (a :: b :: c :: d :: rest)) : ∀ text, motive text
  | [] => short [] (by decide)
  | [_] => short _ (by simp)
  | [_, _] => short _ (by simp)
  | [_, _, _] => short _ (by simp)
  | a :: b :: c :: d :: rest => group a b c d rest (four_induction short group rest)

/-- Fewer than four characters are no group. -/
theorem decode_short (short : text.length < 4) : decodeLoop text = some [] ∧
    ∀ size dest, decodeGroups size text dest = .ok (true, dest.2) := by
  match text, short with
  | [], _ => exact ⟨rfl, fun _ _ => rfl⟩
  | [_], _ => exact ⟨rfl, fun _ _ => rfl⟩
  | [_, _], _ => exact ⟨rfl, fun _ _ => rfl⟩
  | [_, _, _], _ => exact ⟨rfl, fun _ _ => rfl⟩
  | _ :: _ :: _ :: _ :: _, short =>
      simp only [List.length_cons] at short
      omega

/-- What is decoded is written, as far as there is room. -/
theorem decodeGroups_some {size : Int} : ∀ {bytes : Bytes} {j : Int} {dest : Writes},
    decodeLoop text = some bytes → j ≤ size →
    decodeGroups size text (j, dest) = .ok (true, puts dest j (bytes.take (size - j).toNat)) := by
  induction text using four_induction with
  | short text short =>
      intro bytes j dest decoded _
      rw [(decode_short short).1] at decoded
      cases decoded
      rw [(decode_short short).2, List.take_nil]
      rfl
  | group a b c d rest ih =>
      intro bytes j dest decoded room
      rw [decodeLoop] at decoded
      obtain ⟨first, quad, decoded⟩ := Option.bind_eq_some_iff.mp decoded
      obtain ⟨later, others, joined⟩ := Option.bind_eq_some_iff.mp decoded
      obtain rfl : first ++ later = bytes := Option.some.inj joined
      rw [decodeGroups_ascii (decodeQuad_ascii quad), quad]
      simp only [foldl_store room]
      rw [ih others (by rw [List.length_take]; omega), List.take_append, puts_append]
      congr 4
      rw [List.length_take]
      omega

theorem padding_concat (front text : Bytes) (c : UInt8) :
    padding front (text ++ [c]) = if c = padChar then padding front text + 1 else 0 := by
  unfold padding
  rw [List.reverse_append, List.reverse_singleton, List.append_assoc, List.singleton_append,
    List.takeWhile_cons]
  by_cases pad : c = padChar
  · rw [if_pos pad, pad, beq_self_eq_true, if_pos rfl, List.length_cons]
  · rw [if_neg pad, beq_eq_false_iff_ne.mpr pad, if_neg (by decide), List.length_nil]

theorem padding_le (text : Bytes) : padding [] text ≤ text.length := by
  unfold padding
  have all := (List.takeWhile_sublist (· == padChar) (l := text.reverse ++ [])).length_le
  simpa using all

/-- The count runs over the start of a text of padding only. -/
theorem countPadding_eq (src : Bytes) : ∀ n ≤ src.length,
    countPadding src n =
      if padding [] (src.take n) = n then .error (.source (-1)) else .ok (padding [] (src.take n)) := by
  intro n
  induction n with
  | zero => intro _; rfl
  | succ n ih =>
      intro inside
      have before : padding [] (src.take n) ≤ n := by
        have all := padding_le (src.take n)
        rw [List.length_take] at all
        omega
      rw [countPadding, List.getElem?_eq_getElem inside, List.take_succ_eq_append_getElem inside,
        padding_concat]
      by_cases pad : src[n] = padChar
      · rw [if_pos (by rw [pad]), if_pos pad, ih (by omega)]
        by_cases all : padding [] (src.take n) = n
        · rw [if_pos all, if_pos (by omega)]
          rfl
        · rw [if_neg all, if_neg (by omega)]
          rfl
      · rw [if_neg fun same => pad (Option.some.inj same), if_neg pad, if_neg (by omega)]

/-- The part of the text that its length as an `int` covers. -/
def visible (src : Bytes) : Bytes := src.take (cInt src.length).toNat

/-- A text with no more than two characters of padding at its end. -/
def trimmed (text : Bytes) : Bytes := text.take (text.length - (padding [] text - 2))

theorem length_visible (positive : 0 < cInt src.length) :
    ((visible src).length : Int) = cInt src.length := by
  have bound := cInt_le (n := src.length) (by omega)
  unfold visible
  rw [List.length_take]
  omega

theorem visible_of_short (short : src.length < 2 ^ 31) : visible src = src := by
  unfold visible
  rw [cInt_of_bounds (by omega) (by omega), Int.toNat_natCast, List.take_length]

theorem length_trimmed (text : Bytes) :
    (trimmed text).length = text.length - (padding [] text - 2) := by
  unfold trimmed
  rw [List.length_take]
  omega

theorem trimmed_of_padding_le (few : padding [] text ≤ 2) : trimmed text = text := by
  unfold trimmed
  rw [List.take_of_length_le (by omega)]

theorem readPadding_eq (positive : 0 < cInt src.length) :
    readPadding src (cInt src.length) =
      if padding [] (visible src) = (visible src).length then .error (.source (-1))
      else .ok (padding [] (visible src)) := by
  have bound := cInt_le (n := src.length) (by omega)
  have length := length_visible positive
  unfold readPadding
  rw [if_neg (by omega), countPadding_eq src _ (by omega)]
  have same : (cInt src.length).toNat = (visible src).length := by omega
  rw [same]
  have shown : src.take (visible src).length = visible src := by
    rw [← same]
    rfl
  rw [shown]

theorem base64Decsize_nil_eq (text : Bytes) : base64Decsize [] text =
    (text.length : Int).tdiv 4 * 3 - (min (padding [] text) 2 : Nat) := by
  unfold base64Decsize
  rw [Int.tdiv_eq_ediv_of_nonneg (by omega)]
  push_cast
  omega

theorem readDecsize_eq (positive : 0 < cInt src.length) :
    readDecsize src =
      if padding [] (visible src) = (visible src).length then .error (.source (-1))
      else .ok (base64Decsize [] (visible src)) := by
  have length := length_visible positive
  have least (i : Nat) : ((if 2 ≤ i then 2 else i : Nat) : Int) = (min i 2 : Nat) := by
    split <;> omega
  unfold readDecsize
  simp only []
  rw [readPadding_eq positive]
  by_cases all : padding [] (visible src) = (visible src).length
  · rw [if_pos all, if_pos all]
    rfl
  · rw [if_neg all, if_neg all, base64Decsize_nil_eq, length, ← least]
    simp only [bind, Except.bind, pure, Except.pure]

theorem ok_bind {α β : Type} (value : α) (next : α → Except Base64Fault β) :
    (Except.ok value >>= next) = next value := rfl

/-- The checks of the length and of the size, and then the loop. -/
theorem decode_checked (size dlen : Int) (text : Bytes) :
    (if (text.length : Int) % 4 ≠ 0 then (pure (-1, untouched) : Except Base64Fault (Int × Writes))
      else if size < dlen then pure (-1, untouched)
      else do
        let (valid, dest) ← decodeGroups size text (0, untouched)
        if valid then return (dlen, dest) else return (-1, dest)) =
      if text.length % 4 ≠ 0 then .ok (-1, untouched)
      else if size < dlen then .ok (-1, untouched)
      else (decodeGroups size text (0, untouched)).map fun done =>
        (if done.1 then dlen else -1, done.2) := by
  by_cases aligned : text.length % 4 = 0
  · have whole : ¬ (text.length : Int) % 4 ≠ 0 := by omega
    rw [if_neg whole, if_neg (not_not.mpr aligned)]
    by_cases room : size < dlen
    · rw [if_pos room, if_pos room]
      rfl
    · rw [if_neg room, if_neg room]
      cases decodeGroups size text (0, untouched) with
      | error fault => rfl
      | ok done =>
          obtain ⟨valid, dest⟩ := done
          cases valid
          · rfl
          · rfl
  · rw [if_pos (by omega), if_pos aligned]
    rfl

/-- The decoder on a text that is not all padding. -/
theorem base64DecodeInto_eq (positive : 0 < cInt src.length)
    (some' : padding [] (visible src) ≠ (visible src).length) (size : Int) :
    base64DecodeInto size src =
      if (trimmed (visible src)).length % 4 ≠ 0 then .ok (-1, untouched)
      else if size < base64Decsize [] (visible src) then .ok (-1, untouched)
      else (decodeGroups size (trimmed (visible src)) (0, untouched)).map fun done =>
        (if done.1 then base64Decsize [] (visible src) else -1, done.2) := by
  have length := length_visible positive
  have inside := padding_le (visible src)
  unfold base64DecodeInto
  simp only []
  rw [if_neg (by omega), readPadding_eq positive, if_neg some', readDecsize_eq positive, if_neg some']
  have slen : (if 2 < padding [] (visible src)
      then cInt src.length - ((padding [] (visible src) : Int) - 2) else cInt src.length) =
      ((trimmed (visible src)).length : Int) := by
    rw [length_trimmed]
    split <;> omega
  have shown : src.take (trimmed (visible src)).length = trimmed (visible src) := by
    have bound := length_trimmed (visible src)
    have cut : (visible src).take (trimmed (visible src)).length = trimmed (visible src) := by
      rw [bound]
      rfl
    have inner : (src.take (cInt src.length).toNat).take (trimmed (visible src)).length =
        src.take (trimmed (visible src)).length := by
      rw [List.take_take, min_eq_left (by omega)]
    rw [← inner]
    exact cut
  rw [ok_bind, ok_bind, slen, Int.toNat_natCast, shown, Int.tmod_eq_emod_of_nonneg (by omega)]
  exact decode_checked size _ _

end Decode

/-! ## Round trips -/

section RoundTrip
variable {data : Bytes}

theorem encoder_ne_nul (sextet : Fin 64) : encoder.getD sextet 0 ≠ 0 := by
  have known : encoder.getD sextet 0 ∈ encoder := by
    rw [decoder_mem, decoder_encoder]
    rfl
  exact (encoder_chars _ known).1

theorem encodeTriple_ne_nul (a b c : UInt8) : ∀ char ∈ encodeTriple a b c, char ≠ 0 := by
  intro char member
  obtain ⟨sextet, among, rfl⟩ := List.mem_map.mp member
  have small : sextet < 64 := by
    simp only [List.mem_cons, List.not_mem_nil, or_false] at among
    omega
  exact encoder_ne_nul ⟨sextet, small⟩

theorem encodeLoop_ne_nul (data : Bytes) : ∀ char ∈ encodeLoop data, char ≠ 0 := by
  induction data using encodeLoop.induct with
  | case1 => intro char member; cases member
  | case2 a => exact encodeTriple_ne_nul a 0 0
  | case3 a b => exact encodeTriple_ne_nul a b 0
  | case4 a b c rest ih =>
      intro char member
      rcases List.mem_append.mp member with first | later
      · exact encodeTriple_ne_nul a b c char first
      · exact ih char later

/-- The text ends where its buffer says. -/
theorem base64Encode_ne_nul (data : Bytes) : ∀ char ∈ base64Encode data, char ≠ 0 := by
  have pad : padChar ≠ 0 := by decide
  have chars := encodeLoop_ne_nul data
  intro char member
  unfold base64Encode at member
  simp only [] at member
  split at member
  · rcases List.mem_append.mp member with coded | added
    · exact chars char (List.mem_of_mem_take coded)
    · simp only [List.mem_cons, List.not_mem_nil, or_false, or_self] at added
      rwa [added]
  · rcases List.mem_append.mp member with coded | added
    · exact chars char (List.mem_of_mem_take coded)
    · rwa [List.mem_singleton.mp added]
  · exact chars char member

/-- An `int` counts an encoded text, which is not padding only. -/
theorem base64Encode_counted (short : data.length < 2 ^ 29) (some' : data ≠ []) :
    0 < cInt (base64Encode data).length ∧ visible (base64Encode data) = base64Encode data ∧
      padding [] (base64Encode data) ≤ 2 ∧
      padding [] (base64Encode data) < (base64Encode data).length := by
  have nonempty := List.length_pos_iff.mpr some'
  have length := length_base64Encode data
  have pads := padding_base64Encode data some' []
  have few : missing data ≤ 2 := by
    unfold missing
    omega
  have bounded : cInt (base64Encode data).length = (base64Encode data).length :=
    cInt_of_bounds (by omega) (by omega)
  exact ⟨by omega, visible_of_short (by omega), by omega, by omega⟩

/-- An encoded text is decoded to its data, where the buffer takes the data. -/
theorem base64DecodeInto_base64Encode {size : Int} (short : data.length < 2 ^ 29)
    (some' : data ≠ []) (room : data.length ≤ size) :
    base64DecodeInto size (base64Encode data) = .ok ((data.length : Int),
      puts untouched 0 ((data ++ List.replicate (missing data) 0).take size.toNat)) := by
  obtain ⟨counted, shown, few, character⟩ := base64Encode_counted short some'
  have length := length_base64Encode data
  have whole : trimmed (base64Encode data) = base64Encode data := trimmed_of_padding_le few
  have decoded : base64DecodeInto size (base64Encode data) = _ :=
    base64DecodeInto_eq counted (by rw [shown]; omega) size
  rw [shown, whole, base64Decsize_base64Encode some', if_neg (by omega), if_neg (by omega),
    decodeGroups_some (decodeLoop_base64Encode data) (by omega)] at decoded
  rw [decoded, Int.sub_zero]
  rfl

theorem base64DecodeInto_nil {size : Int} (positive : 0 < size) :
    base64DecodeInto size [] = .ok (0, put untouched 0 0) := by
  have nothing : cInt ([] : Bytes).length = 0 := cInt_of_bounds (by decide) (by decide)
  unfold base64DecodeInto
  rw [nothing]
  exact if_pos positive

theorem base64DecMallocInto_base64Encode (short : data.length < 2 ^ 29) (some' : data ≠ []) :
    base64DecMallocInto true (base64Encode data) = .ok (some ((data.length : Int),
      puts untouched 0 ((data ++ List.replicate (missing data) 0).take (data.length + 1)))) := by
  obtain ⟨counted, shown, few, character⟩ := base64Encode_counted short some'
  have decsize : readDecsize (base64Encode data) = _ := readDecsize_eq counted
  rw [shown, if_neg (by omega), base64Decsize_base64Encode some'] at decsize
  have room : ((data.length : Int) + 1).toNat = data.length + 1 := by omega
  unfold base64DecMallocInto
  rw [decsize, ok_bind]
  simp only []
  rw [if_neg (by omega), base64DecodeInto_base64Encode short some' (by omega), room]
  simp only [Bool.not_true, Bool.false_eq_true, if_false, ok_bind]
  rw [if_neg (by omega)]
  rfl

theorem shows_data {count : Nat} (room : data.length ≤ count) :
    Shows (puts untouched 0 ((data ++ List.replicate (missing data) 0).take count)) 0 data := by
  have split : (data ++ List.replicate (missing data) 0).take count =
      data ++ (List.replicate (missing data) 0).take (count - data.length) := by
    rw [List.take_append, List.take_of_length_le room]
  rw [split]
  exact (shows_append.mp shows_puts).1

theorem blobScanInto_base64Encode (short : data.length < 2 ^ 29) (some' : data ≠ [])
    (junk : Nat → UInt8) : blobScanInto junk (base64Encode data) = .ok (some data) := by
  unfold blobScanInto
  rw [base64DecMallocInto_base64Encode short some', ok_bind]
  simp only [Int.toNat_natCast]
  rw [(shows_data (by omega)).contents]
  rfl

/-- What is encoded is the text of the RFC, and it is decoded to the data. -/
theorem base64_round_trip (data : Bytes) (short : data.length < 2 ^ 29) :
    (∀ char ∈ rfc4648 data, char ≠ 0) ∧
    (∀ size : Int, ((rfc4648 data).length : Int) + 1 ≤ size →
      ∃ buffer, base64EncodeInto size data data.length = (((rfc4648 data).length : Int), buffer) ∧
        HoldsText buffer (rfc4648 data) ∧ Within buffer size) ∧
    (∀ size : Int, max 1 (data.length : Int) ≤ size →
      ∃ buffer, base64DecodeInto size (rfc4648 data) = .ok ((data.length : Int), buffer) ∧
        Shows buffer 0 data ∧ Within buffer size) ∧
    (data ≠ [] →
      (∃ text, base64EncMalloc data data.length = some text ∧ HoldsText text (rfc4648 data) ∧
        Within text ((rfc4648 data).length + 1)) ∧
      (∃ buffer, base64DecMallocInto true (rfc4648 data) = .ok (some ((data.length : Int), buffer)) ∧
        Shows buffer 0 data ∧ Within buffer (data.length + 1)) ∧
      ∀ size : Int, ((rfc4648 data).length : Int) + 1 ≤ size →
        ∃ text, blobDump size data = (((rfc4648 data).length : Int), text) ∧
          HoldsText text (rfc4648 data) ∧ Within text size ∧
          ∀ junk, blobScanInto junk (rfc4648 data) = .ok (some data)) := by
  rw [← base64Encode_eq_rfc4648]
  have length := length_base64Encode data
  have coded : (base64Encode data).length < 2 ^ 31 := by omega
  have within {size : Int} (room : ((base64Encode data).length : Int) + 1 ≤ size) :
      Within (puts untouched 0 (base64Encode data ++ [0])) size := by
    refine within_untouched.puts (by omega) ?_
    rw [List.length_append, List.length_singleton]
    omega
  have bytes {count : Nat} {size : Int} (room : count ≤ size) :
      Within (puts untouched 0 ((data ++ List.replicate (missing data) 0).take count)) size := by
    refine within_untouched.puts (by omega) ?_
    rw [List.length_take]
    omega
  refine ⟨base64Encode_ne_nul data, ?_, ?_, fun some' => ⟨?_, ?_, ?_⟩⟩
  · intro size room
    exact ⟨_, base64EncodeInto_eq coded room, holdsText_puts, within room⟩
  · intro size room
    by_cases empty : data = []
    · subst empty
      have positive : 0 < size := by omega
      refine ⟨put untouched 0 0, ?_, ?_, within_untouched.put (by omega) positive⟩
      · have coded : base64Encode [] = [] := rfl
        rw [coded]
        exact base64DecodeInto_nil positive
      · intro k inside
        simp at inside
    · exact ⟨_, base64DecodeInto_base64Encode short empty (by omega), shows_data (by omega),
        bytes (by omega)⟩
  · exact ⟨_, base64EncMalloc_eq coded, holdsText_puts, within (by omega)⟩
  · exact ⟨_, base64DecMallocInto_base64Encode short some', shows_data (by omega), bytes (by omega)⟩
  · intro size room
    exact ⟨_, blobDump_eq coded room, holdsText_puts, within room,
      blobScanInto_base64Encode short some'⟩

theorem one_byte_comes_back :
    (∀ char ∈ rfc4648 [49], char ≠ 0) ∧
    (∀ size : Int, ((rfc4648 [49]).length : Int) + 1 ≤ size →
      ∃ buffer, base64EncodeInto size [49] 1 = (((rfc4648 [49]).length : Int), buffer) ∧
        HoldsText buffer (rfc4648 [49]) ∧ Within buffer size) ∧
    (∀ size : Int, max 1 1 ≤ size →
      ∃ buffer, base64DecodeInto size (rfc4648 [49]) = .ok (1, buffer) ∧
        Shows buffer 0 [49] ∧ Within buffer size) := by
  obtain ⟨text, encoded, decoded, -⟩ := base64_round_trip [49] (by decide)
  exact ⟨text, encoded, decoded⟩

end RoundTrip

end Mopher
