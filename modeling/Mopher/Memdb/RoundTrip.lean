import Mopher.Memdb.Vp

/-!
# Packed records in a database

A driver that stores records outside the process gets the two blocks back as plain
bytes and makes a packed record of them with `vp_init`.  What the memory holds behind
a block does not matter: every field says itself where it ends.
-/

set_option autoImplicit false

namespace Mopher

/-- `vp_init` on the memory at `key` and `data`; the pointers to the bitmap and to the
fields follow from `data`. -/
def vpInit (key data : Bytes) : Vp := { data, key }

/-- `vp_pack` stops at a key field that is null. -/
theorem vpPackFields_null_key {record : List Field} (n : Nat) (vp : Vp)
    (null : ∃ item ∈ record, item.spec.key = true ∧ item.data = none) :
    vpPackFields n vp record = none := by
  induction record generalizing n vp with
  | nil =>
      obtain ⟨item, member, -⟩ := null
      cases member
  | cons item record ih =>
      obtain ⟨found, member, key, empty⟩ := null
      cases member with
      | head => simp [vpPackFields, key, empty]
      | tail _ later =>
          have rest (n : Nat) (vp : Vp) : vpPackFields n vp record = none :=
            ih n vp ⟨found, later, key, empty⟩
          unfold vpPackFields
          split
          · split
            · rfl
            · exact rest _ _
          · split
            · exact rest _ _
            · exact rest _ _

theorem vpFieldIsNull_vpInit (vp : Vp) (key more : Bytes) (whole : 8 ≤ vp.data.length)
    (field : Nat) : vpFieldIsNull (vpInit key (vp.data ++ more)) field = vpFieldIsNull vp field :=
  vpFieldIsNull_append vp more whole field

/-- The blocks are unpacked to the record they were packed from, whatever lies behind them. -/
theorem vpUnpack_vpInit {record : List Field} (small : record.length ≤ 64)
    (keys : ∀ item ∈ record, item.spec.key = true → item.data.isSome = true) :
    ∃ vp, vpPack record = some vp ∧ ∀ keyRest dataRest,
      vpUnpack (vpInit (vp.key ++ keyRest) (vp.data ++ dataRest)) (record.map Field.spec) =
        some record := by
  have of : OfScheme (record.map Field.spec) record := ⟨rfl, keys⟩
  obtain ⟨vp, ran, key, fields, nulls⟩ := vpPackFields_spec record _ 0 vpPrependMeta of
    (by omega) (by simp [vpPrependMeta])
  have whole : 8 ≤ vp.data.length := vpPackFields_whole record 0 vpPrependMeta
    (by simp [vpPrependMeta]) ran
  refine ⟨vp, by rw [vpPack, if_neg (by omega), ran], fun keyRest dataRest => ?_⟩
  have front : vp.key = (keyOf record).flatten := key
  have behind : vp.fields = otherBytes record := fields
  refine vpUnpackFields_spec _ record _ 0 0 0 keyRest dataRest of ?_ ?_ ?_
  · rw [List.drop_zero, ← front]
    rfl
  · rw [List.drop_zero, ← behind]
    exact List.drop_append_of_le_length whole
  · intro i inside
    rw [Nat.zero_add, vpFieldIsNull_vpInit vp _ dataRest whole, nulls i (by omega),
      vpFieldIsNull_vpPrependMeta (by omega)]
    simp

/-- A key that is a number, a text that is null and a blob. -/
def nullTextRecord : List Field :=
  [⟨⟨.int, cstr "id", true⟩, some (.int 7)⟩, ⟨⟨.string, cstr "text", false⟩, none⟩,
    ⟨⟨.blob, cstr "data", false⟩, some (.blob ⟨[1, 2], by decide⟩)⟩]

example : (vpPack nullTextRecord).map Vp.data =
    some [2, 0, 0, 0, 0, 0, 0, 0, 10, 0, 0, 0, 0, 0, 0, 0, 1, 2] := by decide

end Mopher
