import Mopher.Base64.Buffers

/-!
# What the base64 decoder accepts

Every text may come to `base64_decode`.  A text that it accepts should be groups of four
characters with padding at their end, and the bytes of the groups should be in the buffer.
The characters are read as table indices with a sign, a text of padding only is read from
in front of its start, and padding of six and more characters counts as bytes.
-/

set_option autoImplicit false

namespace Mopher

open CBuffer

/-- Groups of four characters, padding after the last ones of the last group, and the bytes
that they stand for. -/
inductive Groups : Bytes → Bytes → Prop where
  | nil : Groups [] []
  | full {a b c d : UInt8} {w x y z : Nat} {text payload : Bytes}
      (first : decoder a = some w) (second : decoder b = some x) (third : decoder c = some y)
      (fourth : decoder d = some z) (rest : Groups text payload) :
      Groups (a :: b :: c :: d :: text)
        (UInt8.ofNat (w * 4 + x / 16) :: UInt8.ofNat (x % 16 * 16 + y / 4) ::
          UInt8.ofNat (y % 4 * 64 + z) :: payload)
  | two {a b c : UInt8} {w x y : Nat}
      (first : decoder a = some w) (second : decoder b = some x) (third : decoder c = some y) :
      Groups [a, b, c, padChar] [UInt8.ofNat (w * 4 + x / 16), UInt8.ofNat (x % 16 * 16 + y / 4)]
  | one {a b : UInt8} {w x : Nat} (first : decoder a = some w) (second : decoder b = some x) :
      Groups [a, b, padChar, padChar] [UInt8.ofNat (w * 4 + x / 16)]

/-- More padding may follow padding. -/
def Surplus (text : Bytes) (more : Nat) : Prop := more = 0 ∨ text.getLast? = some padChar

/-- The text is groups and surplus padding, and its bytes are counted and in the buffer. -/
def Decodes (src : Bytes) (n : Int) (buffer : Writes) : Prop :=
  ∃ text payload more, Groups text payload ∧ Surplus text more ∧
    src = text ++ List.replicate more padChar ∧ n = payload.length ∧ Shows buffer 0 payload

/-- The decoder stays inside of the text and of its table, and what it accepts is decoded. -/
def DecodesSoundly (size : Int) (src : Bytes) : Prop :=
  (∃ n buffer, base64DecodeInto size src = .ok (n, buffer) ∧ (0 ≤ n → Decodes src n buffer)) ∧
  ∀ allocated, ∃ result, base64DecMallocInto allocated src = .ok result

/-- The groups up to the first one with a character outside of the alphabet. -/
def lookedUp (text : Bytes) : Bytes :=
  text.take (4 * ((text.takeWhile (· ∈ encoder)).length / 4 + 1))

/-- No character of a negative index is looked up. -/
def Readable (text : Bytes) : Prop := ∀ c ∈ lookedUp text, c.toNat < 128

/-- The texts that the decoder gets right. -/
structure DecodableText (size : Int) (src : Bytes) : Prop where
  /-- The length as an `int` is positive. -/
  counted : 0 < cInt src.length
  /-- The text is not padding only. -/
  character : padding [] (visible src) < (visible src).length
  /-- In groups of four, no character from 128 on is looked up. -/
  readable : 4 ∣ (trimmed (visible src)).length → Readable (trimmed (visible src))
  /-- Groups that fit have fewer than six characters of padding; only padding follows what an
  `int` counts. -/
  surplus : ∀ payload, Groups (trimmed (visible src)) payload →
    ((visible src).length / 4 * 3 : Nat) - (min (padding [] (visible src)) 2 : Nat) ≤ size →
      padding [] (visible src) < 6 ∧
      ∃ more, Surplus (visible src) more ∧ src = visible src ++ List.replicate more padChar

/-! ## Groups -/

section Groups
variable {text payload : Bytes} {a b c d : UInt8}

theorem decoder_lt {n : Nat} (known : decoder c = some n) : n < 64 := by
  obtain ⟨inside, -⟩ := List.findIdx?_eq_some_iff_getElem.mp known
  exact inside

/-- The bytes of four sextets. -/
theorem triple_ofNat {w x y z : Nat} (third : y < 64) (fourth : z < 64) :
    UInt8.ofNat ((w * 262144 + x * 4096 + y * 64 + z) / 65536) = UInt8.ofNat (w * 4 + x / 16) ∧
    UInt8.ofNat ((w * 262144 + x * 4096 + y * 64 + z) / 256) = UInt8.ofNat (x % 16 * 16 + y / 4) ∧
    UInt8.ofNat (w * 262144 + x * 4096 + y * 64 + z) = UInt8.ofNat (y % 4 * 64 + z) := by
  refine ⟨?_, ?_, ?_⟩
  · rw [← UInt8.toNat_inj, UInt8.toNat_ofNat', UInt8.toNat_ofNat']
    omega
  · rw [← UInt8.toNat_inj, UInt8.toNat_ofNat', UInt8.toNat_ofNat']
    omega
  · rw [← UInt8.toNat_inj, UInt8.toNat_ofNat', UInt8.toNat_ofNat']
    omega

theorem decodeQuad_of_known {last : Bool} {w x y z : Nat} (first : decoder a = some w)
    (second : decoder b = some x) (third : decoder c = some y) (fourth : decoder d = some z) :
    decodeQuad last a b c d = some [UInt8.ofNat (w * 4 + x / 16), UInt8.ofNat (x % 16 * 16 + y / 4),
      UInt8.ofNat (y % 4 * 64 + z)] := by
  have unpadded : (d == padChar) = false := by
    rw [beq_eq_false_iff_ne]
    rintro rfl
    rw [padChar_unknown] at fourth
    cases fourth
  obtain ⟨one, two, three⟩ := triple_ofNat (w := w) (x := x) (decoder_lt third) (decoder_lt fourth)
  simp only [decodeQuad, unpadded, Bool.and_false, Bool.false_and, Bool.false_eq_true, if_false,
    first, second, third, fourth, one, two, three]

theorem decodeQuad_pad {w x y : Nat} (first : decoder a = some w) (second : decoder b = some x)
    (third : decoder c = some y) :
    decodeQuad true a b c padChar = some [UInt8.ofNat (w * 4 + x / 16),
      UInt8.ofNat (x % 16 * 16 + y / 4), UInt8.ofNat (y % 4 * 64)] := by
  have unpadded : (c == padChar) = false := by
    rw [beq_eq_false_iff_ne]
    rintro rfl
    rw [padChar_unknown] at third
    cases third
  obtain ⟨one, two, three⟩ := triple_ofNat (w := w) (x := x) (z := 0) (decoder_lt third) (by decide)
  simp only [Nat.add_zero] at one two three
  simp only [decodeQuad, unpadded, beq_self_eq_true, Bool.and_false, Bool.and_self, Bool.false_eq_true,
    if_false, if_true, first, second, third, one, two, three, Nat.add_zero]

theorem decodeQuad_pads {w x : Nat} (first : decoder a = some w) (second : decoder b = some x) :
    decodeQuad true a b padChar padChar = some [UInt8.ofNat (w * 4 + x / 16),
      UInt8.ofNat (x % 16 * 16), 0] := by
  obtain ⟨one, two, three⟩ := triple_ofNat (w := w) (x := x) (y := 0) (z := 0) (by decide) (by decide)
  simp only [Nat.zero_div, Nat.zero_mod, Nat.zero_mul, Nat.add_zero] at one two three
  simp only [decodeQuad, beq_self_eq_true, Bool.and_self, if_true, first, second, one, two, three,
    Nat.zero_mul, Nat.add_zero]
  rfl

/-- A group that is decoded is one of the three kinds. -/
theorem decodeQuad_cases {last : Bool} {bytes : Bytes} (decoded : decodeQuad last a b c d = some bytes) :
    ∃ w x, decoder a = some w ∧ decoder b = some x ∧
      ((∃ y z, decoder c = some y ∧ decoder d = some z) ∨
        (last = true ∧ d = padChar ∧ ((∃ y, decoder c = some y) ∨ c = padChar))) := by
  obtain ⟨first, second, third, fourth, -⟩ := decodeQuad_known decoded
  obtain ⟨w, first⟩ := Option.isSome_iff_exists.mp first
  obtain ⟨x, second⟩ := Option.isSome_iff_exists.mp second
  refine ⟨w, x, first, second, ?_⟩
  rcases fourth with known | ⟨ends, pad⟩
  · obtain ⟨z, known⟩ := Option.isSome_iff_exists.mp known
    rcases third with known' | ⟨-, pad, -⟩
    · obtain ⟨y, known'⟩ := Option.isSome_iff_exists.mp known'
      exact .inl ⟨y, z, known', known⟩
    · rw [pad, padChar_unknown] at known
      cases known
  · rcases third with known | ⟨-, -, pad'⟩
    · exact .inr ⟨ends, pad, .inl (Option.isSome_iff_exists.mp known)⟩
    · exact .inr ⟨ends, pad, .inr pad'⟩

/-- Groups are decoded to their bytes, and zeros for the padding. -/
theorem Groups.decodeLoop (groups : Groups text payload) :
    ∃ spare, decodeLoop text = some (payload ++ spare) := by
  induction groups with
  | nil => exact ⟨[], rfl⟩
  | full first second third fourth rest ih =>
      obtain ⟨spare, decoded⟩ := ih
      refine ⟨spare, ?_⟩
      rw [Mopher.decodeLoop, decodeQuad_of_known first second third fourth, decoded]
      rfl
  | two first second third =>
      rw [Mopher.decodeLoop, List.isEmpty_nil, decodeQuad_pad first second third]
      exact ⟨_, rfl⟩
  | one first second =>
      rw [Mopher.decodeLoop, List.isEmpty_nil, decodeQuad_pads first second]
      exact ⟨_, rfl⟩

/-- What is decoded is groups. -/
theorem groups_of_decodeLoop : ∀ {bytes : Bytes}, 4 ∣ text.length → decodeLoop text = some bytes →
    ∃ payload, Groups text payload := by
  induction text using four_induction with
  | short text short =>
      intro bytes four decoded
      have empty : text = [] := List.length_eq_zero_iff.mp (by omega)
      subst empty
      exact ⟨[], .nil⟩
  | group a b c d rest ih =>
      intro bytes four decoded
      rw [decodeLoop] at decoded
      obtain ⟨first, quad, decoded⟩ := Option.bind_eq_some_iff.mp decoded
      obtain ⟨later, others, -⟩ := Option.bind_eq_some_iff.mp decoded
      obtain ⟨payload, groups⟩ := ih (by simp only [List.length_cons] at four; omega) others
      obtain ⟨w, x, one, two, both | ⟨ends, rfl, one' | rfl⟩⟩ := decodeQuad_cases quad
      · obtain ⟨y, z, three, four⟩ := both
        exact ⟨_, .full one two three four groups⟩
      · obtain ⟨y, three⟩ := one'
        obtain rfl : rest = [] := List.isEmpty_iff.mp ends
        exact ⟨_, .two one two three⟩
      · obtain rfl : rest = [] := List.isEmpty_iff.mp ends
        exact ⟨_, .one one two⟩

/-- The characters of groups, the padding behind them, and how many bytes they are. -/
theorem Groups.core (groups : Groups text payload) :
    ∃ core pads, text = core ++ List.replicate pads padChar ∧ (∀ c ∈ core, (decoder c).isSome = true) ∧
      pads ≤ 2 ∧ 4 ∣ core.length + pads ∧ payload.length = 3 * core.length / 4 := by
  induction groups with
  | nil => exact ⟨[], 0, rfl, by simp, by omega, by simp, rfl⟩
  | @full a b c d _ _ _ _ text payload first second third fourth rest ih =>
      obtain ⟨core, pads, rfl, known, few, four, count⟩ := ih
      refine ⟨a :: b :: c :: d :: core, pads, rfl, ?_, few, ?_, ?_⟩
      · simp only [List.forall_mem_cons, first, second, third, fourth, Option.isSome_some, true_and]
        exact known
      · simp only [List.length_cons]
        omega
      · simp only [List.length_cons, count]
        omega
  | @two a b c _ _ _ first second third =>
      exact ⟨[a, b, c], 1, rfl, by simp [first, second, third], by omega, by simp, by simp⟩
  | @one a b _ _ first second =>
      exact ⟨[a, b], 2, rfl, by simp [first, second], by omega, by simp, by simp⟩

theorem known_ne_padChar (known : (decoder c).isSome = true) : c ≠ padChar := by
  rintro rfl
  rw [padChar_unknown] at known
  cases known

end Groups

/-! ## Padding -/

section Padding
variable {core text : Bytes}

theorem padding_core (unpadded : ∀ c ∈ core, c ≠ padChar) (pads : Nat) :
    padding [] (core ++ List.replicate pads padChar) = pads := by
  induction pads with
  | zero =>
      rw [List.replicate_zero, List.append_nil]
      rcases List.eq_nil_or_concat core with rfl | ⟨front, c, rfl⟩
      · rfl
      · rw [List.concat_eq_append, padding_concat, if_neg (unpadded c (by simp))]
  | succ pads ih =>
      rw [List.replicate_succ', ← List.append_assoc, padding_concat, if_pos rfl, ih]

theorem padding_split (text : Bytes) :
    ∃ core, text = core ++ List.replicate (padding [] text) padChar := by
  induction text using List.reverseRecOn with
  | nil => exact ⟨[], rfl⟩
  | append_singleton text c ih =>
      obtain ⟨core, split⟩ := ih
      rw [padding_concat]
      by_cases pad : c = padChar
      · refine ⟨core, ?_⟩
        rw [if_pos pad, List.replicate_succ', ← List.append_assoc, ← split, pad]
      · exact ⟨text ++ [c], by rw [if_neg pad, List.replicate_zero, List.append_nil]⟩

theorem trimmed_split (text : Bytes) : ∃ core,
    text = core ++ List.replicate (padding [] text) padChar ∧
    trimmed text = core ++ List.replicate (min (padding [] text) 2) padChar := by
  obtain ⟨core, split⟩ := padding_split text
  refine ⟨core, split, ?_⟩
  have length := congrArg List.length split
  rw [List.length_append, List.length_replicate] at length
  have cut : text.length - (padding [] text - 2) = core.length + min (padding [] text) 2 := by omega
  have kept : (core ++ List.replicate (padding [] text) padChar).take
      (core.length + min (padding [] text) 2) =
        core ++ List.replicate (min (padding [] text) 2) padChar := by
    rw [List.take_length_add_append, List.take_replicate, min_eq_left (min_le_left _ _)]
  unfold trimmed
  rw [cut, ← kept, ← split]

theorem getLast?_pads {pads : Nat} (some' : 0 < pads) :
    (core ++ List.replicate pads padChar).getLast? = some padChar := by
  obtain ⟨less, rfl⟩ := Nat.exists_eq_succ_of_ne_zero (by omega : pads ≠ 0)
  rw [List.replicate_succ', ← List.append_assoc, List.getLast?_concat]

/-- The number of bytes goes by the characters in front of the padding. -/
theorem Decodes.split {src : Bytes} {n : Int} {buffer : Writes} (decodes : Decodes src n buffer) :
    ∃ core pads more, src = core ++ List.replicate (pads + more) padChar ∧
      (∀ c ∈ core, c ≠ padChar) ∧ pads ≤ 2 ∧ 4 ∣ core.length + pads ∧ (more ≠ 0 → pads ≠ 0) ∧
      n = (3 * core.length / 4 : Nat) := by
  obtain ⟨text, payload, more, groups, surplus, rfl, rfl, -⟩ := decodes
  obtain ⟨core, pads, rfl, known, few, four, count⟩ := groups.core
  have unpadded : ∀ c ∈ core, c ≠ padChar := fun c member => known_ne_padChar (known c member)
  refine ⟨core, pads, more, ?_, unpadded, few, four, ?_, by rw [count]⟩
  · rw [List.append_assoc, List.replicate_append_replicate]
  · rintro some' rfl
    rcases surplus with none' | last
    · exact some' none'
    · rw [List.replicate_zero, List.append_nil] at last
      exact unpadded _ (List.mem_of_getLast? last) rfl

end Padding

/-! ## Reads -/

section Reads
variable {text : Bytes} {a b c d : UInt8}

theorem lookedUp_known (known : a ∈ encoder ∧ b ∈ encoder ∧ c ∈ encoder ∧ d ∈ encoder) :
    lookedUp (a :: b :: c :: d :: text) = a :: b :: c :: d :: lookedUp text := by
  obtain ⟨first, second, third, fourth⟩ := known
  have groups (n : Nat) : 4 * ((n + 1 + 1 + 1 + 1) / 4 + 1) = 4 * (n / 4 + 1) + 1 + 1 + 1 + 1 := by omega
  unfold lookedUp
  simp only [List.takeWhile_cons, first, second, third, fourth, decide_true, if_true, List.length_cons,
    groups, List.take_succ_cons]

theorem lookedUp_unknown (unknown : ¬ (a ∈ encoder ∧ b ∈ encoder ∧ c ∈ encoder ∧ d ∈ encoder)) :
    lookedUp (a :: b :: c :: d :: text) = [a, b, c, d] := by
  have few : ((a :: b :: c :: d :: text).takeWhile (· ∈ encoder)).length < 4 := by
    simp only [List.takeWhile_cons]
    by_cases first : a ∈ encoder
    · by_cases second : b ∈ encoder
      · by_cases third : c ∈ encoder
        · by_cases fourth : d ∈ encoder
          · exact (unknown ⟨first, second, third, fourth⟩).elim
          · simp [first, second, third, fourth]
        · simp [first, second, third]
      · simp [first, second]
    · simp [first]
  unfold lookedUp
  rw [Nat.div_eq_of_lt few]
  rfl

theorem decodeQuad_isSome {last : Bool}
    (known : a ∈ encoder ∧ b ∈ encoder ∧ c ∈ encoder ∧ d ∈ encoder) :
    ∃ bytes, decodeQuad last a b c d = some bytes := by
  obtain ⟨first, second, third, fourth⟩ := known
  obtain ⟨w, first⟩ := Option.isSome_iff_exists.mp (decoder_mem.mp first)
  obtain ⟨x, second⟩ := Option.isSome_iff_exists.mp (decoder_mem.mp second)
  obtain ⟨y, third⟩ := Option.isSome_iff_exists.mp (decoder_mem.mp third)
  obtain ⟨z, fourth⟩ := Option.isSome_iff_exists.mp (decoder_mem.mp fourth)
  exact ⟨_, decodeQuad_of_known first second third fourth⟩

/-- A group with a negative index is not decoded. -/
theorem decodeGroups_high (high : ¬ (a.toNat < 128 ∧ b.toNat < 128 ∧ c.toNat < 128 ∧ d.toNat < 128))
    (size : Int) (dest : Int × Writes) :
    ∃ fault, decodeGroups size (a :: b :: c :: d :: text) dest = .error fault := by
  rw [decodeGroups]
  by_cases first : a.toNat < 128
  · by_cases second : b.toNat < 128
    · by_cases third : c.toNat < 128
      · obtain ⟨fault, read⟩ := readTable_high (c := d) fun fourth => high ⟨first, second, third, fourth⟩
        rw [readTable_ascii first, readTable_ascii second, readTable_ascii third, read]
        exact ⟨fault, rfl⟩
      · obtain ⟨fault, read⟩ := readTable_high third
        rw [readTable_ascii first, readTable_ascii second, read]
        exact ⟨fault, rfl⟩
    · obtain ⟨fault, read⟩ := readTable_high second
      rw [readTable_ascii first, read]
      exact ⟨fault, rfl⟩
  · obtain ⟨fault, read⟩ := readTable_high first
    rw [read]
    exact ⟨fault, rfl⟩

/-- The first group is always looked up. -/
theorem Readable.first (readable : Readable (a :: b :: c :: d :: text)) :
    a.toNat < 128 ∧ b.toNat < 128 ∧ c.toNat < 128 ∧ d.toNat < 128 := by
  have among : ∀ char ∈ [a, b, c, d], char ∈ lookedUp (a :: b :: c :: d :: text) := by
    intro char member
    by_cases known : a ∈ encoder ∧ b ∈ encoder ∧ c ∈ encoder ∧ d ∈ encoder
    · rw [lookedUp_known known]
      exact List.mem_append_left (lookedUp text) member
    · rwa [lookedUp_unknown known]
  exact ⟨readable a (among a (by simp)), readable b (among b (by simp)),
    readable c (among c (by simp)), readable d (among d (by simp))⟩

theorem readable_known (known : a ∈ encoder ∧ b ∈ encoder ∧ c ∈ encoder ∧ d ∈ encoder) :
    Readable (a :: b :: c :: d :: text) ↔ Readable text := by
  unfold Readable
  obtain ⟨first, second, third, fourth⟩ := known
  rw [lookedUp_known ⟨first, second, third, fourth⟩]
  simp only [List.forall_mem_cons, encoder_ascii a first, encoder_ascii b second,
    encoder_ascii c third, encoder_ascii d fourth, true_and]

theorem readable_unknown (unknown : ¬ (a ∈ encoder ∧ b ∈ encoder ∧ c ∈ encoder ∧ d ∈ encoder))
    (ascii : a.toNat < 128 ∧ b.toNat < 128 ∧ c.toNat < 128 ∧ d.toNat < 128) :
    Readable (a :: b :: c :: d :: text) := by
  unfold Readable
  rw [lookedUp_unknown unknown]
  simp only [List.forall_mem_cons, ascii, true_and]
  intro char member
  cases member

/-- The loop ends without a fault exactly when what it looks up is readable, and then says
whether all groups are decoded. -/
theorem decodeGroups_spec {size : Int} (four : 4 ∣ text.length) : ∀ dest : Int × Writes,
    (Readable text →
      ∃ writes, decodeGroups size text dest = .ok ((decodeLoop text).isSome, writes)) ∧
    (¬ Readable text → ∃ fault, decodeGroups size text dest = .error fault) := by
  induction text using four_induction with
  | short text short =>
      intro dest
      have empty : text = [] := List.length_eq_zero_iff.mp (by omega)
      subst empty
      exact ⟨fun _ => ⟨dest.2, rfl⟩, fun unreadable => (unreadable fun _ member => by cases member).elim⟩
  | group a b c d rest ih =>
      intro dest
      have rest_four : 4 ∣ rest.length := by
        simp only [List.length_cons] at four
        omega
      by_cases ascii : a.toNat < 128 ∧ b.toNat < 128 ∧ c.toNat < 128 ∧ d.toNat < 128
      · rw [decodeGroups_ascii ascii, decodeLoop]
        by_cases known : a ∈ encoder ∧ b ∈ encoder ∧ c ∈ encoder ∧ d ∈ encoder
        · obtain ⟨bytes, quad⟩ : ∃ bytes, decodeQuad rest.isEmpty a b c d = some bytes :=
            decodeQuad_isSome known
          obtain ⟨readable, unreadable⟩ := ih rest_four (bytes.foldl (store size) dest)
          rw [readable_known known, quad]
          refine ⟨fun reads => ?_, unreadable⟩
          obtain ⟨writes, done⟩ := readable reads
          refine ⟨writes, ?_⟩
          simp only [done]
          cases decodeLoop rest with
          | none => rfl
          | some later => rfl
        · have readable : Readable (a :: b :: c :: d :: rest) := readable_unknown known ascii
          refine ⟨fun _ => ?_, fun unreadable => (unreadable readable).elim⟩
          cases quad : decodeQuad rest.isEmpty a b c d with
          | none => exact ⟨dest.2, rfl⟩
          | some bytes =>
              -- padding is decoded in the last group only
              obtain ⟨w, x, first, second, ⟨y, z, third, fourth⟩ | ⟨last, -⟩⟩ := decodeQuad_cases quad
              · refine (known ⟨?_, ?_, ?_, ?_⟩).elim
                · exact decoder_mem.mpr (by rw [first]; rfl)
                · exact decoder_mem.mpr (by rw [second]; rfl)
                · exact decoder_mem.mpr (by rw [third]; rfl)
                · exact decoder_mem.mpr (by rw [fourth]; rfl)
              · obtain rfl : rest = [] := List.isEmpty_iff.mp last
                exact ⟨_, rfl⟩
      · exact ⟨fun readable => (ascii readable.first).elim, fun _ => decodeGroups_high ascii size dest⟩

end Reads

/-! ## Soundness -/

section Sound
variable {src : Bytes} {size : Int}

theorem readDecsize_empty (nothing : cInt src.length ≤ 0) : ∃ fault, readDecsize src = .error fault := by
  have faults : readPadding src (cInt src.length) = .error (.source (cInt src.length - 1)) :=
    if_pos nothing
  unfold readDecsize
  simp only []
  rw [faults]
  exact ⟨_, rfl⟩

theorem base64DecMallocInto_fault {allocated : Bool} {fault : Base64Fault}
    (faults : readDecsize src = .error fault) : base64DecMallocInto allocated src = .error fault := by
  unfold base64DecMallocInto
  rw [faults]
  rfl

/-- The buffer that is allocated has room for one byte more than is decoded. -/
theorem base64DecMallocInto_ok {allocated : Bool} {decsize : Int} (counted : readDecsize src = .ok decsize)
    (positive : 0 ≤ decsize) : base64DecMallocInto allocated src =
      if allocated then (base64DecodeInto (decsize + 1) src).map fun done =>
        if done.1 = -1 then none else some done
      else .ok none := by
  unfold base64DecMallocInto
  rw [counted, ok_bind]
  simp only []
  rw [if_neg (by omega)]
  cases allocated with
  | false =>
      rw [Bool.not_false, if_pos rfl, if_neg Bool.false_ne_true]
      rfl
  | true =>
      cases base64DecodeInto (decsize + 1) src with
      | error fault => rfl
      | ok done =>
          simp only [Bool.not_true, Bool.false_eq_true, if_false, if_true, ok_bind, Except.map]
          split
          · rfl
          · rfl

/-- Whole groups that are not padding only stand for some byte. -/
theorem decsize_positive {text : Bytes} (character : padding [] text < text.length)
    (four : 4 ∣ (trimmed text).length) : 0 < base64Decsize [] text := by
  have length := length_trimmed text
  unfold base64Decsize
  omega

/-- The number of bytes is right: then the text has little padding, and only padding is not
counted. -/
theorem surplus_of_decodes {text rest : Bytes} {n : Int} {buffer : Writes}
    (value : base64Decsize [] text = n) (decodes : Decodes (text ++ rest) n buffer)
    (character : padding [] text < text.length) (four : 4 ∣ (trimmed text).length) :
    padding [] text < 6 ∧ Surplus text rest.length ∧ rest = List.replicate rest.length padChar := by
  obtain ⟨core, pads, more, split, unpadded, few, whole, after, count⟩ := decodes.split
  have length := length_trimmed text
  unfold base64Decsize at value
  rcases List.append_eq_append_iff.mp split with ⟨left, rfl, rfl⟩ | ⟨left, rfl, fill⟩
  · -- no padding is counted, so there is none
    have none' : padding [] text = 0 := by
      have bare : padding [] (text ++ List.replicate 0 padChar) = 0 := padding_core
        (fun c member => unpadded c (List.mem_append_left left member)) 0
      rwa [List.replicate_zero, List.append_nil] at bare
    rw [List.length_append] at whole count
    have counted : left.length = 0 := by omega
    have none'' : pads + more = 0 := by omega
    rw [List.length_eq_zero_iff.mp counted, none'']
    exact ⟨by omega, .inl rfl, rfl⟩
  · obtain ⟨total, before, behind⟩ := List.append_eq_replicate_iff.mp fill.symm
    have pads' : padding [] (core ++ left) = left.length := by
      have counted := padding_core unpadded left.length
      rwa [← before] at counted
    rw [List.length_append] at length
    rw [pads', List.length_append] at character
    rw [pads'] at length value ⊢
    refine ⟨?_, ?_, behind⟩
    · rw [List.length_append] at value
      omega
    · by_cases none' : left.length = 0
      · left
        omega
      · right
        rw [before]
        exact getLast?_pads (by omega)

/-- The padding of a text is the padding of its groups and the surplus. -/
theorem text_of_trimmed {text core : Bytes} {pads : Nat}
    (shape : trimmed text = core ++ List.replicate pads padChar) :
    text = core ++ List.replicate (pads + (padding [] text - 2)) padChar := by
  obtain ⟨front, split, cut⟩ := trimmed_split text
  have joined : List.replicate (padding [] text) padChar =
      List.replicate (min (padding [] text) 2) padChar ++
        List.replicate (padding [] text - 2) padChar := by
    rw [List.replicate_append_replicate]
    congr 1
    omega
  rw [← List.replicate_append_replicate, ← List.append_assoc, ← shape, cut, List.append_assoc, ← joined]
  exact split

/-- With little padding, and only padding not counted, the number of bytes is right. -/
theorem decodes_of_surplus {text payload bytes : Bytes} {more : Nat} (groups : Groups (trimmed text) payload)
    (decoded : decodeLoop (trimmed text) = some bytes) (room : base64Decsize [] text ≤ size)
    (few : padding [] text < 6) (after : Surplus text more) :
    Decodes (text ++ List.replicate more padChar) (base64Decsize [] text)
      (puts untouched 0 (bytes.take (size - 0).toNat)) := by
  have length := length_trimmed text
  obtain ⟨core, pads, shape, known, -, four, count⟩ := groups.core
  have unpadded : ∀ c ∈ core, c ≠ padChar := fun c member => known_ne_padChar (known c member)
  have same := text_of_trimmed shape
  have pads' : padding [] text = pads + (padding [] text - 2) := by
    have counted := padding_core unpadded (pads + (padding [] text - 2))
    rwa [← same] at counted
  have all := congrArg List.length same
  rw [List.length_append, List.length_replicate] at all
  have payload' : base64Decsize [] text = payload.length := by
    unfold base64Decsize
    rw [count]
    omega
  obtain ⟨spare, decoded'⟩ := groups.decodeLoop
  obtain rfl : payload ++ spare = bytes := Option.some.inj (decoded'.symm.trans decoded)
  refine ⟨trimmed text, payload, padding [] text - 2 + more, groups, ?_, ?_, payload', ?_⟩
  · rcases after with none' | last
    · by_cases little : padding [] text ≤ 2
      · left
        omega
      · right
        rw [shape]
        exact getLast?_pads (by omega)
    · right
      rw [shape]
      refine getLast?_pads ?_
      by_contra bare
      have nothing : pads + (padding [] text - 2) = 0 := by omega
      rw [nothing, List.replicate_zero, List.append_nil] at same
      rw [same] at last
      exact unpadded _ (List.mem_of_getLast? last) rfl
  · rw [← List.replicate_append_replicate, ← List.append_assoc, shape, List.append_assoc core,
      List.replicate_append_replicate, ← same]
  · have kept : (payload ++ spare).take (size - 0).toNat =
        payload ++ spare.take ((size - 0).toNat - payload.length) := by
      rw [List.take_append, List.take_of_length_le (by omega)]
    rw [kept]
    exact (shows_append.mp shows_puts).1

/-- In a readable text the loop has no fault. -/
theorem decodeGroups_readable {text : Bytes} (readable : 4 ∣ text.length → Readable text)
    (four : 4 ∣ text.length) (size : Int) :
    ∃ writes, decodeGroups size text (0, untouched) = .ok ((decodeLoop text).isSome, writes) :=
  (decodeGroups_spec four (0, untouched)).1 (readable four)

theorem base64DecodeInto_decodable (decodable : DecodableText size src) (other : Int) :
    ∃ n buffer, base64DecodeInto other src = .ok (n, buffer) := by
  obtain ⟨counted, character, readable, -⟩ := decodable
  rw [base64DecodeInto_eq counted (by omega)]
  by_cases four : 4 ∣ (trimmed (visible src)).length
  · obtain ⟨writes, done⟩ := decodeGroups_readable readable four other
    rw [if_neg (by omega), done]
    by_cases room : other < base64Decsize [] (visible src)
    · rw [if_pos room]
      exact ⟨-1, untouched, rfl⟩
    · rw [if_neg room]
      exact ⟨_, _, rfl⟩
  · rw [if_pos (by omega)]
    exact ⟨-1, untouched, rfl⟩

/-- What is accepted of a decodable text is decoded. -/
theorem decodes_of_decodable {n : Int} {buffer : Writes} (decodable : DecodableText size src)
    (returned : base64DecodeInto size src = .ok (n, buffer)) (accepted : 0 ≤ n) :
    Decodes src n buffer := by
  obtain ⟨counted, character, readable, surplus⟩ := decodable
  rw [base64DecodeInto_eq counted (by omega)] at returned
  split at returned
  · obtain ⟨rfl, -⟩ := Prod.mk.inj (Except.ok.inj returned)
    omega
  next aligned =>
    have four : 4 ∣ (trimmed (visible src)).length := by omega
    split at returned
    · obtain ⟨rfl, -⟩ := Prod.mk.inj (Except.ok.inj returned)
      omega
    next room =>
      cases decoded : decodeLoop (trimmed (visible src)) with
      | none =>
          obtain ⟨writes, done⟩ := decodeGroups_readable readable four size
          rw [done, decoded] at returned
          simp only [Except.map, Option.isSome_none, Bool.false_eq_true, if_false] at returned
          obtain ⟨rfl, -⟩ := Prod.mk.inj (Except.ok.inj returned)
          omega
      | some bytes =>
          have positive := decsize_positive character four
          obtain ⟨payload, groups⟩ := groups_of_decodeLoop four decoded
          have room : base64Decsize [] (visible src) ≤ size := by omega
          obtain ⟨few, more, after, whole⟩ := surplus payload groups room
          rw [decodeGroups_some decoded (by omega)] at returned
          simp only [Except.map, if_true] at returned
          obtain ⟨rfl, rfl⟩ := Prod.mk.inj (Except.ok.inj returned)
          have decodes := decodes_of_surplus groups decoded room few after
          rwa [← whole] at decodes

theorem sound_of_decodable (decodable : DecodableText size src) : DecodesSoundly size src := by
  obtain ⟨n, buffer, returned⟩ := base64DecodeInto_decodable decodable size
  refine ⟨⟨n, buffer, returned, decodes_of_decodable decodable returned⟩, fun allocated => ?_⟩
  have decsize := readDecsize_eq decodable.counted
  rw [if_neg (by have some' := decodable.character; omega)] at decsize
  unfold base64DecMallocInto
  rw [decsize, ok_bind]
  simp only []
  split
  · exact ⟨none, rfl⟩
  · obtain ⟨n, buffer, returned⟩ := base64DecodeInto_decodable decodable
      (base64Decsize [] (visible src) + 1)
    rw [returned]
    split
    · exact ⟨none, rfl⟩
    · rw [ok_bind]
      simp only []
      split
      · exact ⟨none, rfl⟩
      · exact ⟨some (n, buffer), rfl⟩

theorem decodable_of_sound (sound : DecodesSoundly size src) : DecodableText size src := by
  obtain ⟨⟨n, buffer, returned, decodes⟩, inside⟩ := sound
  have counted : 0 < cInt src.length := by
    by_contra nothing
    obtain ⟨fault, faults⟩ : ∃ fault, readDecsize src = .error fault := readDecsize_empty (by omega)
    obtain ⟨result, done⟩ := inside true
    rw [base64DecMallocInto_fault faults] at done
    cases done
  have character : padding [] (visible src) < (visible src).length := by
    by_contra all
    have faults := readDecsize_eq counted
    have most := padding_le (visible src)
    rw [if_pos (by omega)] at faults
    obtain ⟨result, done⟩ := inside true
    rw [base64DecMallocInto_fault faults] at done
    cases done
  have decsize := readDecsize_eq counted
  rw [if_neg (by omega)] at decsize
  refine ⟨counted, character, fun four => ?_, fun payload groups room => ?_⟩
  · by_contra unreadable
    obtain ⟨result, done⟩ := inside true
    have positive := decsize_positive character four
    rw [base64DecMallocInto_ok decsize (by omega), if_pos rfl,
      base64DecodeInto_eq counted (by omega), if_neg (by omega), if_neg (by omega)] at done
    obtain ⟨fault, faults⟩ := (decodeGroups_spec four (0, untouched)).2 unreadable
    rw [faults] at done
    cases done
  · have four : 4 ∣ (trimmed (visible src)).length := by
      obtain ⟨core, pads, split, -, -, four, -⟩ := groups.core
      rw [split, List.length_append, List.length_replicate]
      exact four
    have fits : base64Decsize [] (visible src) ≤ size := room
    have positive := decsize_positive character four
    obtain ⟨spare, decoded⟩ := groups.decodeLoop
    rw [base64DecodeInto_eq counted (by omega), if_neg (by omega), if_neg (by omega),
      decodeGroups_some decoded (by omega)] at returned
    simp only [Except.map, if_true] at returned
    have value : base64Decsize [] (visible src) = n := (Prod.mk.inj (Except.ok.inj returned)).1
    have whole : visible src ++ src.drop (cInt src.length).toNat = src := List.take_append_drop _ src
    have decodes := decodes (by omega)
    rw [← whole] at decodes
    obtain ⟨few, after, rest⟩ := surplus_of_decodes value decodes character four
    refine ⟨few, _, after, ?_⟩
    rw [← rest, whole]

/-- The decoder gets exactly these texts right. -/
theorem base64_decode_sound_iff (size : Int) (src : Bytes) :
    DecodesSoundly size src ↔ DecodableText size src :=
  ⟨decodable_of_sound, sound_of_decodable⟩

/-- Six characters of padding are one byte too many for the text of one byte. -/
theorem surplus_is_counted : ¬ DecodesSoundly 16 (cstr "TQ======") := by
  intro sound
  obtain ⟨-, -, -, surplus⟩ := decodable_of_sound sound
  have shown : visible (cstr "TQ======") = cstr "TQ======" := visible_of_short (by decide)
  rw [shown] at surplus
  have trimmed' : trimmed (cstr "TQ======") = cstr "TQ==" := by decide +kernel
  have groups : Groups (trimmed (cstr "TQ======")) [77] := by
    rw [trimmed']
    exact .one (w := 19) (x := 16) (by decide +kernel) (by decide +kernel)
  obtain ⟨few, -⟩ := surplus [77] groups (by decide +kernel)
  exact absurd few (by decide +kernel)

end Sound

end Mopher
