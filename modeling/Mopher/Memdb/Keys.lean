import Mopher.Memdb.Store

/-!
# Keys of packed records

The bytes of the key fields stand one behind the other without separators.  Every
field tells where it ends, so the key of a record never is the beginning of another
key of the scheme, and two keys that differ do so within both of them.
-/

set_option autoImplicit false

namespace Mopher

/-- Lists of which neither is the beginning of the other differ at some place of both. -/
theorem exists_difference {α : Type} (a : List α) : ∀ b : List α, ¬ a <+: b → ¬ b <+: a →
    ∃ (i : Nat) (inA : i < a.length) (inB : i < b.length), a[i] ≠ b[i] := by
  induction a with
  | nil =>
      intro b front _
      exact absurd List.nil_prefix front
  | cons x a ih =>
      intro b front back
      cases b with
      | nil => exact absurd List.nil_prefix back
      | cons y b =>
          by_cases same : x = y
          · subst same
            obtain ⟨i, inA, inB, differ⟩ := ih b
              (fun inside => front (List.cons_prefix_cons.mpr ⟨rfl, inside⟩))
              (fun inside => back (List.cons_prefix_cons.mpr ⟨rfl, inside⟩))
            exact ⟨i + 1, Nat.succ_lt_succ inA, Nat.succ_lt_succ inB, differ⟩
          · exact ⟨0, Nat.succ_pos _, Nat.succ_pos _, same⟩

section Keys
variable {scheme : List FieldSpec} {a b : List Field} {p q : Vp}

/-- `vp_pack` refuses a record with more fields than the bitmap has bits. -/
theorem vpPack_small (packed : vpPack a = some p) : a.length ≤ 64 := by
  unfold vpPack at packed
  split at packed
  · cases packed
  · omega

theorem OfScheme.small (of : OfScheme scheme a) (packed : vpPack a = some p) :
    scheme.length ≤ 64 := by
  rw [← of.specs, List.length_map]
  exact vpPack_small packed

/-- The key block holds the bytes of the key fields. -/
theorem vpPack_key (of : OfScheme scheme a) (packed : vpPack a = some p) :
    p.key = (keyOf a).flatten := by
  obtain ⟨vp, packed', key, -⟩ := vpPack_spec (of.small packed) of
  obtain rfl : p = vp := Option.some.inj (packed.symm.trans packed')
  exact key

theorem keyOf_of_beginning (ofA : OfScheme scheme a) (ofB : OfScheme scheme b)
    (packedA : vpPack a = some p) (packedB : vpPack b = some q) (front : p.key <+: q.key) :
    keyOf a = keyOf b := by
  obtain ⟨rest, whole⟩ := front
  rw [vpPack_key ofA packedA, vpPack_key ofB packedB] at whole
  apply keyOf_inj ofA ofB
  rw [whole, List.append_nil]

theorem vpKey_eq_iff (ofA : OfScheme scheme a) (ofB : OfScheme scheme b)
    (packedA : vpPack a = some p) (packedB : vpPack b = some q) :
    p.key = q.key ↔ keyOf a = keyOf b := by
  constructor
  · intro same
    apply keyOf_of_beginning ofA ofB packedA packedB
    rw [same]
  · intro same
    rw [vpPack_key ofA packedA, vpPack_key ofB packedB, same]

theorem vpKey_of_beginning (ofA : OfScheme scheme a) (ofB : OfScheme scheme b)
    (packedA : vpPack a = some p) (packedB : vpPack b = some q) (front : p.key <+: q.key) :
    p.key = q.key :=
  (vpKey_eq_iff ofA ofB packedA packedB).mpr (keyOf_of_beginning ofA ofB packedA packedB front)

/-- `memdb_record_match` compares the keys, whatever lies behind the second one. -/
theorem memdbRecordMatch_key (beyond : Vp → Nat → UInt8) (ofA : OfScheme scheme a)
    (ofB : OfScheme scheme b) (packedA : vpPack a = some p) (packedB : vpPack b = some q) :
    memdbRecordMatch beyond p q = true ↔ p.key = q.key := by
  rw [vpKey_eq_iff ofA ofB packedA packedB]
  exact memdbRecordMatch_iff (ofA.small packedA) ofA ofB packedA packedB

end Keys

end Mopher
