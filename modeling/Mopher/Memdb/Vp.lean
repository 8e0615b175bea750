import Mopher.Var
import Mopher.Lib.LittleEndian

/-!
# Packed records

Model of `vp.c` with the parts of `var.c` and `blob.c` that it uses, on a machine
with 64-bit pointers and little-endian numbers.  A packed record is two blocks of
bytes: the key fields, and the other fields behind a bitmap of those that are
null.  Sizes are numbers: they stay below 2^31, where the integers of `vp.c` have
room for them.
-/

set_option autoImplicit false

namespace Mopher

/-! ## Fields -/

/-- The types that a scheme of a table uses. -/
inductive FieldType where
  | int
  | float
  | string
  | addr
  | blob
deriving Repr, DecidableEq

/-- A C string; its bytes end at the first NUL. -/
structure CString where
  text : Bytes
  terminated : (0 : UInt8) ∉ text
deriving DecidableEq

/-- `var_sockaddr_t`, byte by byte. -/
structure SockaddrStorage where
  bytes : Bytes
  size : bytes.length = 128
deriving DecidableEq

/-- The data of a `blob_t`, which starts with its whole size as a `long`. -/
structure Blob where
  data : Bytes
  size : data.length + 8 < 2 ^ 63
deriving DecidableEq

/-- What `v_data` of a variable of the type points at. -/
inductive FieldData : FieldType → Type where
  | int (number : BitVec 64) : FieldData .int
  | float (pattern : BitVec 64) : FieldData .float
  | string (text : CString) : FieldData .string
  | addr (storage : SockaddrStorage) : FieldData .addr
  | blob (content : Blob) : FieldData .blob
deriving DecidableEq

/-- A field of a scheme; `key` is the flag `VF_KEY`. -/
structure FieldSpec where
  type : FieldType
  name : Bytes
  key : Bool
deriving DecidableEq

structure Field where
  spec : FieldSpec
  data : Option (FieldData spec.type)
deriving DecidableEq

/-- The memory behind `v_data`. -/
def FieldData.bytes : {type : FieldType} → FieldData type → Bytes
  | _, .int number => LittleEndian.encode 8 number.toNat
  | _, .float pattern => LittleEndian.encode 8 pattern.toNat
  | _, .string text => text.text ++ [0]
  | _, .addr storage => storage.bytes
  | _, .blob content => LittleEndian.encode 8 (content.data.length + 8) ++ content.data

/-- `var_data_size`. -/
def FieldData.varDataSize {type : FieldType} (data : Option (FieldData type)) : Nat :=
  match data with
  | none => 0
  | some data => data.bytes.length

/-- Reads a `long` or a `double`. -/
def readWord (memory : Bytes) : Option (BitVec 64) :=
  if 8 ≤ memory.length then some (BitVec.ofNat 64 (LittleEndian.decode (memory.take 8))) else none

def readString (memory : Bytes) : Option CString :=
  if 0 ∈ memory then
    some ⟨memory.takeWhile (· ≠ 0), fun member => by simpa using List.mem_takeWhile_imp member⟩
  else none

def readAddr (memory : Bytes) : Option SockaddrStorage :=
  if enough : 128 ≤ memory.length then
    some ⟨memory.take 128, List.length_take_of_le enough⟩
  else none

def readBlob (memory : Bytes) : Option Blob :=
  let size := LittleEndian.decode (memory.take 8)
  if bounds : 8 ≤ size ∧ size ≤ memory.length ∧ size < 2 ^ 63 then
    some ⟨(memory.take size).drop 8, by
      rw [List.length_drop, List.length_take_of_le bounds.2.1]
      omega⟩
  else none

/-- `var_copy_data`; there is no result where it would read past the memory. -/
def varCopyData (type : FieldType) (memory : Bytes) : Option (FieldData type) :=
  match type with
  | .int => (readWord memory).map .int
  | .float => (readWord memory).map .float
  | .string => (readString memory).map .string
  | .addr => (readAddr memory).map .addr
  | .blob => (readBlob memory).map .blob

/-! ## Packing -/

/-- `vp_t`.  The bitmap of the null fields is the first word of `vp_data`. -/
structure Vp where
  data : Bytes
  key : Bytes
deriving DecidableEq

/-- `*vp->vp_null_fields`. -/
def Vp.nullFields (vp : Vp) : BitVec 64 := BitVec.ofNat 64 (LittleEndian.decode (vp.data.take 8))

/-- `vp->vp_fields`, which is behind the size of a pointer to the bitmap. -/
def Vp.fields (vp : Vp) : Bytes := vp.data.drop 8

def vpFieldIsNull (vp : Vp) (field : Nat) : Bool := vp.nullFields &&& (1#64 <<< field) != 0#64

def vpSetNull (vp : Vp) (field : Nat) : Vp :=
  { vp with
    data := LittleEndian.encode 8 (vp.nullFields ||| (1#64 <<< field)).toNat ++ vp.data.drop 8 }

/-- `vp_prepend_meta` on a new `vp_t`. -/
def vpPrependMeta : Vp := { data := LittleEndian.encode 8 0, key := [] }

/-- The loop of `vp_pack` from field `n` on. -/
def vpPackFields : Nat → Vp → List Field → Option Vp
  | _, vp, [] => some vp
  | n, vp, item :: rest =>
      match item.data with
      | none => if item.spec.key then none else vpPackFields (n + 1) (vpSetNull vp n) rest
      | some data =>
          if item.spec.key then vpPackFields (n + 1) { vp with key := vp.key ++ data.bytes } rest
          else vpPackFields (n + 1) { vp with data := vp.data ++ data.bytes } rest

/-- `vp_pack`; `VP_FIELD_LIMIT` is the number of bits of the bitmap. -/
def vpPack (record : List Field) : Option Vp :=
  if 64 < record.length then none else vpPackFields 0 vpPrependMeta record

/-- The loop of `vp_unpack` from field `n` on. -/
def vpUnpackFields (vp : Vp) : Nat → Nat → Nat → List FieldSpec → Option (List Field)
  | _, _, _, [] => some []
  | n, keyOffset, fieldOffset, item :: rest =>
      if vpFieldIsNull vp n && item.key then none
      else
        let created : Option (Option (FieldData item.type)) :=
          if item.key then (varCopyData item.type (vp.key.drop keyOffset)).map some
          else if vpFieldIsNull vp n then some none
          else (varCopyData item.type (vp.fields.drop fieldOffset)).map some
        match created with
        | none => none
        | some data =>
            let keyOffset := if item.key then keyOffset + FieldData.varDataSize data else keyOffset
            let fieldOffset := if item.key then fieldOffset else fieldOffset + FieldData.varDataSize data
            (vpUnpackFields vp (n + 1) keyOffset fieldOffset rest).map (⟨item, data⟩ :: ·)

def vpUnpack (vp : Vp) (scheme : List FieldSpec) : Option (List Field) :=
  vpUnpackFields vp 0 0 0 scheme

/-! ## Reading a field back -/

theorem readWord_encode (word : BitVec 64) (rest : Bytes) :
    readWord (LittleEndian.encode 8 word.toNat ++ rest) = some word := by
  have enough : 8 ≤ (LittleEndian.encode 8 word.toNat ++ rest).length := by simp
  have front : (LittleEndian.encode 8 word.toNat ++ rest).take 8 =
      LittleEndian.encode 8 word.toNat := by
    rw [List.take_append_of_le_length (by simp), List.take_of_length_le (by simp)]
  have small : word.toNat < 256 ^ 8 := word.isLt
  rw [readWord, if_pos enough, front, LittleEndian.decode_encode_of_lt small, BitVec.ofNat_toNat,
    BitVec.setWidth_eq]

theorem readString_terminated (text : CString) (rest : Bytes) :
    readString (text.text ++ [0] ++ rest) = some text := by
  have present : (0 : UInt8) ∈ text.text ++ [0] ++ rest := by simp
  have stop : (text.text ++ [0] ++ rest).takeWhile (· ≠ 0) = text.text := by
    rw [List.append_assoc, List.takeWhile_append_of_pos]
    · simp
    · intro c member
      refine decide_eq_true ?_
      rintro rfl
      exact text.terminated member
  unfold readString
  rw [if_pos present]
  congr

theorem readAddr_append (storage : SockaddrStorage) (rest : Bytes) :
    readAddr (storage.bytes ++ rest) = some storage := by
  have enough : 128 ≤ (storage.bytes ++ rest).length := by
    rw [List.length_append, storage.size]
    omega
  have front : (storage.bytes ++ rest).take 128 = storage.bytes := by
    rw [← storage.size, List.take_left]
  unfold readAddr
  rw [dif_pos enough]
  congr

theorem readBlob_append (content : Blob) (rest : Bytes) :
    readBlob (LittleEndian.encode 8 (content.data.length + 8) ++ content.data ++ rest) =
      some content := by
  have small := content.size
  have header : LittleEndian.decode
      ((LittleEndian.encode 8 (content.data.length + 8) ++ content.data ++ rest).take 8) =
        content.data.length + 8 := by
    rw [List.append_assoc, List.take_append_of_le_length (by simp), List.take_of_length_le (by simp)]
    apply LittleEndian.decode_encode_of_lt
    omega
  have whole : ((LittleEndian.encode 8 (content.data.length + 8) ++ content.data ++ rest).take
      (content.data.length + 8)).drop 8 = content.data := by
    rw [List.take_left' (by simp; omega), List.drop_left' (by simp)]
  unfold readBlob
  simp only [header]
  rw [dif_pos (by simp; omega)]
  congr

/-- A variable is read back from the bytes that were packed, whatever follows. -/
theorem varCopyData_bytes (type : FieldType) :
    SelfDelimiting (@FieldData.bytes type) (varCopyData type) := by
  intro data rest
  cases data with
  | int number => simp only [FieldData.bytes, varCopyData, readWord_encode, Option.map_some]
  | float pattern => simp only [FieldData.bytes, varCopyData, readWord_encode, Option.map_some]
  | string text => simp only [FieldData.bytes, varCopyData, readString_terminated, Option.map_some]
  | addr storage => simp only [FieldData.bytes, varCopyData, readAddr_append, Option.map_some]
  | blob content => simp only [FieldData.bytes, varCopyData, readBlob_append, Option.map_some]

/-! ## The bitmap -/

theorem vpFieldIsNull_eq (vp : Vp) {field : Nat} (inside : field < 64) :
    vpFieldIsNull vp field = vp.nullFields.getLsbD field := by
  have bit : (1#64 <<< field) = BitVec.twoPow 64 field := BitVec.twoPow_eq 64 field |>.symm
  have set : BitVec.twoPow 64 field ≠ 0#64 := by
    intro clear
    have := congrArg (fun x => x.getLsbD field) clear
    simp [inside] at this
  unfold vpFieldIsNull
  rw [bit, BitVec.and_twoPow]
  cases vp.nullFields.getLsbD field with
  | false => simp
  | true => simpa using set

theorem nullFields_vpSetNull (vp : Vp) (field : Nat) :
    (vpSetNull vp field).nullFields = vp.nullFields ||| (1#64 <<< field) := by
  have front : (vpSetNull vp field).data.take 8 =
      LittleEndian.encode 8 (vp.nullFields ||| (1#64 <<< field)).toNat := by
    simp only [vpSetNull]
    rw [List.take_append_of_le_length (by simp), List.take_of_length_le (by simp)]
  have small : (vp.nullFields ||| (1#64 <<< field)).toNat < 256 ^ 8 := BitVec.isLt _
  rw [Vp.nullFields, front, LittleEndian.decode_encode_of_lt small, BitVec.ofNat_toNat,
    BitVec.setWidth_eq]

theorem vpFieldIsNull_vpSetNull (vp : Vp) {field : Nat} (n : Nat) (inside : field < 64) :
    vpFieldIsNull (vpSetNull vp n) field = (vpFieldIsNull vp field || decide (n = field)) := by
  rw [vpFieldIsNull_eq _ inside, vpFieldIsNull_eq _ inside, nullFields_vpSetNull, BitVec.getLsbD_or,
    ← BitVec.twoPow_eq, BitVec.getLsbD_twoPow]
  by_cases same : n = field
  · simp [same, inside]
  · simp [same]

theorem fields_vpSetNull (vp : Vp) (n : Nat) : (vpSetNull vp n).fields = vp.fields := by
  simp only [Vp.fields, vpSetNull]
  rw [List.drop_left' (by simp)]

/-- Appending a field leaves the bitmap alone. -/
theorem vpFieldIsNull_append (vp : Vp) (more : Bytes) (whole : 8 ≤ vp.data.length) (field : Nat) :
    vpFieldIsNull { vp with data := vp.data ++ more } field = vpFieldIsNull vp field := by
  simp only [vpFieldIsNull, Vp.nullFields]
  rw [List.take_append_of_le_length whole]

/-! ## Packing and unpacking -/

/-- The bytes of every key field. -/
def keyOf (record : List Field) : List Bytes :=
  record.filterMap fun item => if item.spec.key then item.data.map FieldData.bytes else none

/-- The bytes of the other fields that are not null. -/
def otherBytes (record : List Field) : Bytes :=
  (record.filterMap fun item => if item.spec.key then none else item.data.map FieldData.bytes).flatten

/-- A record of the scheme with all its key fields. -/
structure OfScheme (scheme : List FieldSpec) (record : List Field) : Prop where
  specs : record.map Field.spec = scheme
  keys : ∀ item ∈ record, item.spec.key = true → item.data.isSome = true

theorem OfScheme.tail {spec : FieldSpec} {scheme : List FieldSpec} {item : Field}
    {record : List Field} (of : OfScheme (spec :: scheme) (item :: record)) :
    OfScheme scheme record := by
  refine ⟨?_, fun other member => of.keys other (List.mem_cons_of_mem _ member)⟩
  exact (List.cons.inj of.specs).2

/-- The bit of field `n` is set in step `n`, those of the later fields afterwards. -/
theorem nullBits_cons {n : Nat} {item : Field} {record : List Field} {vp vp' packed : Vp}
    (first : ∀ field < 64, vpFieldIsNull vp' field =
      (vpFieldIsNull vp field || decide (n = field) && item.data.isNone))
    (later : ∀ field < 64, vpFieldIsNull packed field = (vpFieldIsNull vp' field ||
      decide (n + 1 ≤ field) && (record[field - (n + 1)]?).any fun item => item.data.isNone)) :
    ∀ field < 64, vpFieldIsNull packed field = (vpFieldIsNull vp field ||
      decide (n ≤ field) && ((item :: record)[field - n]?).any fun item => item.data.isNone) := by
  intro field inside
  rw [later field inside, first field inside]
  rcases Nat.lt_trichotomy field n with below | same | above
  · simp [show ¬ n ≤ field by omega, show ¬ n + 1 ≤ field by omega, show ¬ n = field by omega]
  · subst same
    simp
  · have index : field - n = field - (n + 1) + 1 := by omega
    simp [index, show n ≤ field by omega, show n + 1 ≤ field by omega, show ¬ n = field by omega]

/-- What the loop of `vp_pack` leaves: the blocks with the bytes of the fields
appended, and the bits of the fields that are null. -/
theorem vpPackFields_spec (record : List Field) : ∀ (scheme : List FieldSpec) (n : Nat) (vp : Vp),
    OfScheme scheme record → n + record.length ≤ 64 → 8 ≤ vp.data.length →
    ∃ packed, vpPackFields n vp record = some packed ∧ packed.key = vp.key ++ (keyOf record).flatten ∧
      packed.fields = vp.fields ++ otherBytes record ∧
      ∀ field < 64, vpFieldIsNull packed field =
        (vpFieldIsNull vp field ||
          decide (n ≤ field) && (record[field - n]?).any fun item => item.data.isNone) := by
  induction record with
  | nil =>
      intro scheme n vp _ _ _
      exact ⟨vp, rfl, by simp [keyOf], by simp [otherBytes], fun field _ => by simp⟩
  | cons item record ih =>
      intro scheme n vp of room whole
      obtain ⟨spec, scheme, rfl⟩ : ∃ spec rest, scheme = spec :: rest :=
        ⟨_, _, of.specs.symm⟩
      have room' : n + 1 + record.length ≤ 64 := by
        simp only [List.length_cons] at room
        omega
      cases data : item.data with
      | none =>
          have plain : item.spec.key = false := by
            rw [Bool.eq_false_iff]
            intro key
            have := of.keys item List.mem_cons_self key
            simp [data] at this
          obtain ⟨packed, ran, key, fields, nulls⟩ := ih scheme (n + 1) (vpSetNull vp n) of.tail room'
            (by simp [vpSetNull])
          refine ⟨packed, ?_, ?_, ?_, ?_⟩
          · simp only [vpPackFields, data, plain, Bool.false_eq_true, if_false, ran]
          · rw [key]
            simp [keyOf, plain, vpSetNull]
          · rw [fields, fields_vpSetNull]
            simp [otherBytes, plain, data]
          · refine nullBits_cons (fun field inside => ?_) nulls
            rw [vpFieldIsNull_vpSetNull vp n inside, data, Option.isNone_none, Bool.and_true]
      | some value =>
          cases key : item.spec.key with
          | true =>
              obtain ⟨packed, ran, keys, fields, nulls⟩ := ih scheme (n + 1)
                { vp with key := vp.key ++ value.bytes } of.tail room' whole
              refine ⟨packed, ?_, ?_, ?_, ?_⟩
              · simp only [vpPackFields, data, key, if_true, ran]
              · rw [keys]
                simp [keyOf, key, data]
              · rw [fields]
                simp [otherBytes, key, Vp.fields]
              · refine nullBits_cons (fun field _ => ?_) nulls
                simp [vpFieldIsNull, Vp.nullFields, data]
          | false =>
              obtain ⟨packed, ran, keys, fields, nulls⟩ := ih scheme (n + 1)
                { vp with data := vp.data ++ value.bytes } of.tail room' (by simp; omega)
              refine ⟨packed, ?_, ?_, ?_, ?_⟩
              · simp only [vpPackFields, data, key, Bool.false_eq_true, if_false, ran]
              · rw [keys]
                simp [keyOf, key]
              · rw [fields]
                simp only [Vp.fields, otherBytes, List.drop_append_of_le_length whole, key, data,
                  List.filterMap_cons, Bool.false_eq_true, if_false, Option.map_some,
                  List.flatten_cons, List.append_assoc]
              · refine nullBits_cons (fun field _ => ?_) nulls
                rw [vpFieldIsNull_append vp _ whole]
                simp [data]

theorem vpPackFields_whole (record : List Field) : ∀ (n : Nat) (vp : Vp) {packed : Vp},
    8 ≤ vp.data.length → vpPackFields n vp record = some packed → 8 ≤ packed.data.length := by
  induction record with
  | nil =>
      intro n vp packed whole ran
      cases ran
      exact whole
  | cons item record ih =>
      intro n vp packed whole ran
      unfold vpPackFields at ran
      split at ran
      · split at ran
        · cases ran
        · exact ih _ _ (by simp [vpSetNull]) ran
      · split at ran
        · exact ih _ _ (by exact whole) ran
        · exact ih _ _ (by simp; omega) ran

theorem vpFieldIsNull_vpPrependMeta {field : Nat} (inside : field < 64) :
    vpFieldIsNull vpPrependMeta field = false := by
  have zero : vpPrependMeta.nullFields = 0#64 := by decide
  rw [vpFieldIsNull_eq _ inside, zero, BitVec.getLsbD_zero]

/-- The loop of `vp_unpack` reads the fields off the blocks. -/
theorem vpUnpackFields_spec (vp : Vp) (record : List Field) : ∀ (scheme : List FieldSpec)
    (n keyOffset fieldOffset : Nat) (keyRest fieldRest : Bytes), OfScheme scheme record →
    vp.key.drop keyOffset = (keyOf record).flatten ++ keyRest →
    vp.fields.drop fieldOffset = otherBytes record ++ fieldRest →
    (∀ i < record.length, vpFieldIsNull vp (n + i) = (record[i]?).any fun item => item.data.isNone) →
    vpUnpackFields vp n keyOffset fieldOffset scheme = some record := by
  induction record with
  | nil =>
      intro scheme n keyOffset fieldOffset keyRest fieldRest of _ _ _
      obtain rfl : scheme = [] := of.specs.symm
      rfl
  | cons item record ih =>
      intro scheme n keyOffset fieldOffset keyRest fieldRest of keys fields nulls
      obtain ⟨spec, scheme, rfl⟩ : ∃ spec rest, scheme = spec :: rest := ⟨_, _, of.specs.symm⟩
      obtain rfl : item.spec = spec := (List.cons.inj of.specs).1
      have here : vpFieldIsNull vp n = item.data.isNone := by
        have := nulls 0 (by simp)
        simpa using this
      have later : ∀ i < record.length,
          vpFieldIsNull vp (n + 1 + i) = (record[i]?).any fun item => item.data.isNone := by
        intro i inside
        have := nulls (i + 1) (by simpa using inside)
        rw [show n + 1 + i = n + (i + 1) by omega, this]
        rfl
      have ih' := fun ko fo keys fields => ih scheme (n + 1) ko fo keyRest fieldRest of.tail keys fields later
      obtain ⟨spec, data⟩ := item
      simp only at here
      cases data with
      | none =>
          have plain : spec.key = false := by
            rw [Bool.eq_false_iff]
            intro key
            exact absurd (of.keys _ List.mem_cons_self key) (by simp)
          have rest := ih' keyOffset fieldOffset (by simpa [keyOf, plain] using keys)
            (by simpa [otherBytes, plain] using fields)
          simp [vpUnpackFields, here, plain, FieldData.varDataSize, rest]
      | some value =>
          cases key : spec.key with
          | true =>
              have front : vp.key.drop keyOffset = value.bytes ++ ((keyOf record).flatten ++ keyRest) := by
                simpa [keyOf, key] using keys
              have rest := ih' (keyOffset + value.bytes.length) fieldOffset
                (by rw [← List.drop_drop, front, List.drop_left])
                (by simpa [otherBytes, key] using fields)
              simp [vpUnpackFields, here, key, front, varCopyData_bytes spec.type value,
                FieldData.varDataSize, rest]
          | false =>
              have front : vp.fields.drop fieldOffset =
                  value.bytes ++ (otherBytes record ++ fieldRest) := by
                simpa [otherBytes, key] using fields
              have rest := ih' keyOffset (fieldOffset + value.bytes.length)
                (by simpa [keyOf, key] using keys)
                (by rw [← List.drop_drop, front, List.drop_left])
              simp [vpUnpackFields, here, key, front, varCopyData_bytes spec.type value,
                FieldData.varDataSize, rest]

/-- A record is packed, its key block holds the bytes of its key fields, and it is
unpacked as it was. -/
theorem vpPack_spec {scheme : List FieldSpec} (small : scheme.length ≤ 64) {record : List Field}
    (of : OfScheme scheme record) : ∃ vp, vpPack record = some vp ∧
      vp.key = (keyOf record).flatten ∧ vpUnpack vp scheme = some record := by
  have length : record.length = scheme.length := by rw [← of.specs, List.length_map]
  obtain ⟨vp, ran, key, fields, nulls⟩ := vpPackFields_spec record scheme 0 vpPrependMeta of
    (by omega) (by simp [vpPrependMeta])
  refine ⟨vp, ?_, ?_, ?_⟩
  · rw [vpPack, if_neg (by omega), ran]
  · rw [key]
    rfl
  · refine vpUnpackFields_spec vp record scheme 0 0 0 [] [] of ?_ ?_ ?_
    · rw [key, List.drop_zero, List.append_nil]
      rfl
    · rw [fields, List.drop_zero, List.append_nil]
      rfl
    · intro i inside
      rw [Nat.zero_add, nulls i (by omega)]
      simp [vpFieldIsNull_vpPrependMeta (show i < 64 by omega)]

/-- Records of one scheme whose key blocks agree, as far as the shorter one goes,
have the same key fields. -/
theorem keyOf_inj {scheme : List FieldSpec} {a b : List Field} (ofA : OfScheme scheme a)
    (ofB : OfScheme scheme b) {x y : Bytes}
    (same : (keyOf a).flatten ++ x = (keyOf b).flatten ++ y) : keyOf a = keyOf b := by
  induction a generalizing scheme b x y with
  | nil =>
      obtain rfl : scheme = [] := ofA.specs.symm
      obtain rfl : b = [] := List.map_eq_nil_iff.mp ofB.specs
      rfl
  | cons item a ih =>
      obtain ⟨spec, scheme, rfl⟩ : ∃ spec rest, scheme = spec :: rest := ⟨_, _, ofA.specs.symm⟩
      obtain ⟨other, b, rfl, _⟩ := List.map_eq_cons_iff.mp ofB.specs
      have later {x y : Bytes} (same : (keyOf a).flatten ++ x = (keyOf b).flatten ++ y) :
          keyOf a = keyOf b := ih ofA.tail ofB.tail same
      have keysA := ofA.keys item List.mem_cons_self
      have keysB := ofB.keys other List.mem_cons_self
      have specs : other.spec = item.spec :=
        (List.cons.inj ofB.specs).1.trans (List.cons.inj ofA.specs).1.symm
      obtain ⟨spec, dataA⟩ := item
      obtain ⟨specB, dataB⟩ := other
      dsimp only at specs keysA keysB
      subst specs
      cases key : specB.key with
      | false => simpa [keyOf, key] using later (by simpa [keyOf, key] using same)
      | true =>
          obtain ⟨valueA, rfl⟩ := Option.isSome_iff_exists.mp (keysA key)
          obtain ⟨valueB, rfl⟩ := Option.isSome_iff_exists.mp (keysB key)
          have split : valueA.bytes ++ ((keyOf a).flatten ++ x) =
              valueB.bytes ++ ((keyOf b).flatten ++ y) := by
            simpa [keyOf, key] using same
          obtain ⟨rfl, rest⟩ := (varCopyData_bytes _).append_inj split
          simpa [keyOf, key] using later rest

end Mopher
