import Mopher.Memdb.Store
import Mopher.Ht.Position

/-!
# Cleanup of a memory database

Model of `memdb_walk` and of the janitor of `dbt.c` on a table of the memdb driver.
The janitor deletes expired records from the table over which it iterates:
`ht_next` has moved on before the callback is called, and the callback removes no
other record than the one it was called with.

`dbt_lock` takes a recursive mutex, so `dbt_db_del` passes it inside of
`dbt_db_walk`; the driver has no `dd_sync`.
-/

set_option autoImplicit false

namespace Mopher.Cleanup

/-- The members of `dbt_t` that the janitor uses; `dbt_handle` is the table. -/
structure Dbt where
  scheme : List FieldSpec
  expireField : Bytes
  cleanupSchedule : BitVec 32
  cleanupDeleted : Int
  handle : Ht Vp

def vlistRecordLookup (record : List Field) (key : Bytes) : Option Field :=
  record.find? fun item => decide (item.spec.name = key)

/-- `vlist_record_get`: the memory behind the field, if the record has it and it is
not null. -/
def vlistRecordGet (record : List Field) (key : Bytes) : Option Bytes :=
  (vlistRecordLookup record key).bind fun item => item.data.map FieldData.bytes

/-- `*expire` in `dbt_common_validate`, a `long`. -/
def expireOf (dbt : Dbt) (record : List Field) : Option Int :=
  (vlistRecordGet record dbt.expireField).bind fun memory => (readWord memory).map BitVec.toInt

/-- `dbt_common_validate`; there is no result where it calls `log_die`. -/
def dbtCommonValidate (dbt : Dbt) (record : List Field) : Option Int :=
  match expireOf dbt record with
  | none => none
  | some expire => if dbt.cleanupSchedule.toInt > expire then some 0 else some 1

/-- What a walk returns, with the records that the callback was called with. -/
structure Walked where
  status : Int
  visited : List (List Field)
  dbt : Dbt

/-- The loop of `memdb_walk`, whose callback is called at most `fuel` times.  There
is no result when the process dies in the callback, or when the position points at
a record that is freed. -/
def memdbWalkLoop (callback : Dbt → List Field → Option (Int × Dbt)) :
    Nat → Dbt → HtPos Vp → Option Walked
  | 0, _, _ => none
  | fuel + 1, dbt, pos =>
      match htNext dbt.handle pos with
      | (none, _) => some ⟨0, [], dbt⟩
      | (some vp, pos) =>
          match vpUnpack vp dbt.scheme with
          | none => some ⟨-1, [], dbt⟩
          | some record =>
              match callback dbt record with
              | none => none
              | some (_, dbt) =>
                  -- a callback that fails is only logged
                  (htDeref dbt.handle pos).bind fun pos =>
                    (memdbWalkLoop callback fuel dbt pos).map fun walked =>
                      { walked with visited := record :: walked.visited }

def memdbWalk (callback : Dbt → List Field → Option (Int × Dbt)) (fuel : Nat) (dbt : Dbt) :
    Option Walked :=
  memdbWalkLoop callback fuel dbt (htStart dbt.handle)

section Janitor
variable (beyond : Vp → Nat → UInt8) (cfDbtFatalErrors : Bool)

/-- `dbt_db_del` of the memdb driver. -/
def dbtDbDel (dbt : Dbt) (record : List Field) : Option (Int × Dbt) :=
  match memdbDel beyond dbt.handle record with
  | (true, ht) => some (0, { dbt with handle := ht })
  | (false, ht) => if cfDbtFatalErrors then none else some (-1, { dbt with handle := ht })

def dbtJanitorValidate (dbt : Dbt) (record : List Field) : Option (Int × Dbt) :=
  match dbtCommonValidate dbt record with
  | none => none
  | some expire =>
      if expire = -1 then some (-1, dbt)
      else if expire ≠ 0 then some (0, dbt)
      else
        match dbtDbDel beyond cfDbtFatalErrors dbt record with
        | none => none
        | some (status, dbt) =>
            if status ≠ 0 then some (-1, dbt)
            else some (0, { dbt with cleanupDeleted := dbt.cleanupDeleted + 1 })

/-- `dbt_db_walk` of the memdb driver. -/
def dbtDbWalk (callback : Dbt → List Field → Option (Int × Dbt)) (fuel : Nat) (dbt : Dbt) :
    Option Walked :=
  match memdbWalk callback fuel dbt with
  | none => none
  | some walked => if walked.status < 0 && cfDbtFatalErrors then none else some walked

/-- `dbt_janitor_cleanup_walk`; the status is its return value. -/
def dbtJanitorCleanupWalk (fuel : Nat) (dbt : Dbt) : Option Walked :=
  match dbtDbWalk cfDbtFatalErrors (dbtJanitorValidate beyond cfDbtFatalErrors) fuel
      { dbt with cleanupDeleted := 0 } with
  | none => none
  | some walked =>
      if walked.status ≠ 0 then some { walked with status := -1 }
      else some { walked with status := walked.dbt.cleanupDeleted }

end Janitor

/-- The expire field is smaller than `dbt_cleanup_schedule`. -/
def expired (dbt : Dbt) (record : List Field) : Bool :=
  (expireOf dbt record).any fun expire => decide (expire < dbt.cleanupSchedule.toInt)

/-- A number in the expire field is what the janitor reads. -/
theorem expireOf_int {dbt : Dbt} {record : List Field} {name : Bytes} {key : Bool} {number : BitVec 64}
    (field : vlistRecordLookup record dbt.expireField = some ⟨⟨.int, name, key⟩, some (.int number)⟩) :
    expireOf dbt record = some number.toInt := by
  have word := readWord_encode number []
  rw [List.append_nil] at word
  simp only [expireOf, vlistRecordGet, field, Option.bind_some, Option.map_some, FieldData.bytes, word]

/-! ## Packed records -/

section Packed
variable {scheme : List FieldSpec}

/-- A scheme with more fields than the bitmap has bits has no packed records. -/
theorem packed_small (p : Packed scheme) : scheme.length ≤ 64 := by
  obtain ⟨record, of, packed⟩ := p.packs
  have length : record.length = scheme.length := by rw [← of.specs, List.length_map]
  by_contra large
  rw [vpPack, if_pos (by omega)] at packed
  cases packed

theorem packedOps_lawful (beyond : Vp → Nat → UInt8) : (packedOps beyond scheme).Lawful where
  refl p := (memdbOps_lawful beyond (packed_small p)).refl p
  symm p := (memdbOps_lawful beyond (packed_small p)).symm p
  trans p := (memdbOps_lawful beyond (packed_small p)).trans p
  hash p := (memdbOps_lawful beyond (packed_small p)).hash p

/-- The record that was packed. -/
noncomputable def packedRecord (p : Packed scheme) : List Field := p.packs.choose

theorem vpPack_packedRecord (p : Packed scheme) : vpPack (packedRecord p) = some p.vp :=
  p.packs.choose_spec.2

theorem vpUnpack_packedRecord (p : Packed scheme) : vpUnpack p.vp scheme = some (packedRecord p) := by
  obtain ⟨vp, packed, _, unpacked⟩ := vpPack_spec (packed_small p) p.packs.choose_spec.1
  obtain rfl : p.vp = vp := Option.some.inj ((vpPack_packedRecord p).symm.trans packed)
  exact unpacked

theorem packedRecord_injective : Function.Injective (packedRecord : Packed scheme → List Field) := by
  intro p q same
  have packed := vpPack_packedRecord p
  rw [same, vpPack_packedRecord q] at packed
  exact Packed.ext (Option.some.inj packed).symm

theorem vp_injective : Function.Injective (Packed.vp : Packed scheme → Vp) :=
  fun _ _ same => Packed.ext same

end Packed

/-! ## The walk of the janitor -/

section Walk
variable {dbt : Dbt}

/-- The table with other content and another count. -/
def holding (dbt : Dbt) (t : Ht (Packed dbt.scheme)) (deleted : Int) : Dbt :=
  { dbt with handle := t.map Packed.vp, cleanupDeleted := deleted }

/-- The janitor removes the record exactly when it is expired. -/
theorem dbtJanitorValidate_spec (beyond : Vp → Nat → UInt8) (cfDbtFatalErrors : Bool)
    (t : Ht (Packed dbt.scheme)) (deleted : Int) (p : Packed dbt.scheme)
    (expires : (expireOf dbt (packedRecord p)).isSome = true) :
    dbtJanitorValidate beyond cfDbtFatalErrors (holding dbt t deleted) (packedRecord p) =
      some (0, if expired dbt (packedRecord p) then
        holding dbt (htRemove (packedOps beyond dbt.scheme) t p) (deleted + 1)
      else holding dbt t deleted) := by
  obtain ⟨expire, read⟩ := Option.isSome_iff_exists.mp expires
  have read' : expireOf (holding dbt t deleted) (packedRecord p) = some expire := read
  have schedule : (holding dbt t deleted).cleanupSchedule = dbt.cleanupSchedule := rfl
  by_cases old : expire < dbt.cleanupSchedule.toInt
  · have gone : expired dbt (packedRecord p) = true := by
      simp only [expired, read, Option.any_some, decide_eq_true old]
    have deletes : memdbDel beyond (holding dbt t deleted).handle (packedRecord p) =
        (true, (htRemove (packedOps beyond dbt.scheme) t p).map Packed.vp) := by
      simp only [memdbDel, vpPack_packedRecord, holding, htRemove_map]
    rw [gone, if_pos rfl]
    simp only [dbtJanitorValidate, dbtCommonValidate, read', schedule, if_pos old, dbtDbDel, deletes]
    rfl
  · have stays : expired dbt (packedRecord p) = false := by
      simp only [expired, read, Option.any_some, decide_eq_false old]
    rw [stays]
    simp only [dbtJanitorValidate, dbtCommonValidate, read', schedule]
    rw [if_neg old]
    rfl

/-- The walk visits the remaining records in order and removes those that are
expired. -/
theorem memdbWalkLoop_spec (beyond : Vp → Nat → UInt8) (cfDbtFatalErrors : Bool)
    (l : List (Packed dbt.scheme)) : ∀ (t : Ht (Packed dbt.scheme))
    (pos : HtPos (Packed dbt.scheme)) (deleted : Int), Placed (packedOps beyond dbt.scheme) t →
    PointsInto t pos → remaining t pos = l →
    (∀ p ∈ l, (expireOf dbt (packedRecord p)).isSome = true) → ∀ fuel, l.length < fuel →
    memdbWalkLoop (dbtJanitorValidate beyond cfDbtFatalErrors) fuel (holding dbt t deleted)
        (pos.map Packed.vp) =
      some ⟨0, l.map packedRecord,
        holding dbt (htSweep (packedOps beyond dbt.scheme) (fun p => expired dbt (packedRecord p)) t l)
          (deleted + l.countP fun p => expired dbt (packedRecord p))⟩ := by
  have lawful : (packedOps beyond dbt.scheme).Lawful := packedOps_lawful beyond
  have handle (t : Ht (Packed dbt.scheme)) (deleted : Int) :
      (holding dbt t deleted).handle = t.map Packed.vp := rfl
  have deref (t : Ht (Packed dbt.scheme)) (pos : HtPos (Packed dbt.scheme)) (deleted : Int)
      (placed : Placed (packedOps beyond dbt.scheme) t) (points : PointsInto t pos) :
      htDeref (holding dbt t deleted).handle (pos.map Packed.vp) = some (pos.map Packed.vp) :=
    htDeref_eq (points.map Packed.vp) ((placed.nodup lawful pos.bucket).map vp_injective)
  induction l with
  | nil =>
      intro t pos deleted placed points rest expires fuel enough
      obtain ⟨fuel, rfl⟩ := Nat.exists_eq_add_one.mpr enough
      have ended : pos.record = [] := by
        by_contra filled
        rw [remaining_eq filled] at rest
        exact filled (List.append_eq_nil_iff.mp rest).1
      simp [memdbWalkLoop, handle, htNext_map, htNext_end ended, htSweep]
  | cons p l ih =>
      intro t pos deleted placed points rest expires fuel enough
      obtain ⟨fuel, rfl⟩ : ∃ n, fuel = n + 1 := Nat.exists_eq_add_one.mpr (by omega)
      have fuel' : l.length < fuel := by simpa using enough
      have filled : pos.record ≠ [] := by
        intro ended
        simp only [remaining, ended] at rest
        cases rest
      obtain ⟨first, others, records⟩ := List.exists_cons_of_ne_nil filled
      obtain ⟨returned, split, _⟩ := htNext_spec (points filled).1 records
      rw [split] at rest
      obtain ⟨rfl, rest'⟩ := List.cons.inj rest
      have points' := htNext_pointsInto points
      have next : htNext (holding dbt t deleted).handle (pos.map Packed.vp) =
          (some first.vp, (htNext t pos).2.map Packed.vp) := by
        rw [handle, htNext_map, returned, Option.map_some]
      have scheme : (holding dbt t deleted).scheme = dbt.scheme := rfl
      have called := dbtJanitorValidate_spec beyond cfDbtFatalErrors t deleted first
         (expires first List.mem_cons_self)
      have later := fun other member => expires other (List.mem_cons_of_mem _ member)
      simp only [memdbWalkLoop, next, scheme, vpUnpack_packedRecord, called]
      cases gone : expired dbt (packedRecord first) with
      | false =>
          simp only [Bool.false_eq_true, if_false]
          rw [deref t _ deleted placed points', Option.bind_some,
            ih t _ deleted placed points' rest' later fuel fuel', Option.map_some]
          simp [htSweep, gone]
      | true =>
          -- the record that is removed matches none of those to come
          have apart := htNext_apart lawful placed points split
          obtain ⟨points'', same⟩ := htRemove_position lawful placed points' apart
          have placed' := htRemove_placed lawful placed first
          simp only [if_true]
          rw [deref _ _ _ placed' points'', Option.bind_some,
            ih _ _ _ placed' points'' (same.trans rest') later fuel fuel', Option.map_some]
          have count : deleted + 1 + (l.countP fun p => expired dbt (packedRecord p) : Nat) =
              deleted + ((first :: l).countP fun p => expired dbt (packedRecord p) : Nat) := by
            simp only [List.countP_cons, gone, if_true, Nat.cast_add, Nat.cast_one]
            omega
          rw [count]
          simp [htSweep, gone]

end Walk

/-- Cleanup deletes the expired records: in a table of packed records whose
`ht_head` is the lowest bucket with a record, and whose records all have an expire
field, `dbt_janitor_cleanup_walk` calls the janitor with every record once, takes
the expired ones out of their chains and leaves the others where they are.  It
returns how many it has removed. -/
theorem cleanup_walk_removes_expired (beyond : Vp → Nat → UInt8) (cfDbtFatalErrors : Bool) (dbt : Dbt)
    (t : Ht (Packed dbt.scheme)) (packed : dbt.handle = t.map Packed.vp)
    (placed : Placed (packedOps beyond dbt.scheme) t) (headed : Headed dbt.handle)
    (expires : ∀ vp ∈ htWalk dbt.handle, ∀ record, vpUnpack vp dbt.scheme = some record →
      (expireOf dbt record).isSome = true) :
    ∃ (visited : List (List Field)) (after : Ht (Packed dbt.scheme)),
      (∀ fuel, (htWalk dbt.handle).length < fuel →
        dbtJanitorCleanupWalk beyond cfDbtFatalErrors fuel dbt =
          some ⟨visited.countP (expired dbt), visited,
            { dbt with handle := after.map Packed.vp, cleanupDeleted := visited.countP (expired dbt) }⟩) ∧
      (htWalk dbt.handle).map (vpUnpack · dbt.scheme) = visited.map some ∧ visited.Nodup ∧
      Placed (packedOps beyond dbt.scheme) after ∧
      ∀ i, (after.map Packed.vp).table i =
        (dbt.handle.table i).filter fun vp => !(vpUnpack vp dbt.scheme).any (expired dbt) := by
  have lawful : (packedOps beyond dbt.scheme).Lawful := packedOps_lawful beyond
  have walk : htWalk dbt.handle = (htWalk t).map Packed.vp := by rw [packed, htWalk_map]
  have start : { dbt with cleanupDeleted := 0 } = holding dbt t 0 := by simp only [holding, packed]
  have headed' : Headed t := by
    rw [packed] at headed
    refine headed.imp id fun filled empty => filled ?_
    simp only [Ht.map, empty, List.map_nil]
  have expires' : ∀ p ∈ htWalk t, (expireOf dbt (packedRecord p)).isSome = true := by
    intro p member
    apply expires p.vp _ _ (vpUnpack_packedRecord p)
    rw [walk]
    exact List.mem_map_of_mem member
  have ran := memdbWalkLoop_spec beyond cfDbtFatalErrors (htWalk t) t (htStart t) 0 placed (htStart_pointsInto placed)
    (remaining_htStart placed headed') expires'
  refine ⟨(htWalk t).map packedRecord, htSweep (packedOps beyond dbt.scheme)
    (fun p => expired dbt (packedRecord p)) t (htWalk t), ?_, ?_, ?_, ?_, ?_⟩
  · intro fuel enough
    rw [walk, List.length_map] at enough
    have first : htStart (holding dbt t 0).handle = (htStart t).map Packed.vp := htStart_map _ t
    have walked := ran fuel enough
    rw [← first, ← memdbWalk, ← start] at walked
    simp only [dbtJanitorCleanupWalk, dbtDbWalk, walked, List.countP_map]
    simp [holding, Function.comp_def]
  · rw [walk, List.map_map, List.map_map]
    apply List.map_congr_left
    intro p _
    exact vpUnpack_packedRecord p
  · refine List.Nodup.map packedRecord_injective ?_
    apply (placed.walk_distinct lawful).imp
    rintro p q apart rfl
    rw [lawful.refl] at apart
    cases apart
  · exact (htSweep_spec lawful _ _ t placed).1
  · intro i
    have chain : (dbt.handle).table i = (t.table i).map Packed.vp := by rw [packed]; rfl
    have swept := htSweep_walk lawful placed (fun p => expired dbt (packedRecord p)) i
    rw [chain, List.filter_map]
    simp only [Ht.map, swept, Function.comp_def, vpUnpack_packedRecord, Option.any_some]

theorem exists_vp_sampleRecord (name : CString) (count : BitVec 64) :
    ∃ vp, vpPack (sampleRecord name (some count)) = some vp ∧
      vpUnpack vp sampleScheme = some (sampleRecord name (some count)) := by
  obtain ⟨vp, packed, _, unpacked⟩ :=
    vpPack_spec (by decide) (sampleRecord_ofScheme name (some count))
  exact ⟨vp, packed, unpacked⟩

def samplePacked (name : CString) (count : BitVec 64) : Packed sampleScheme where
  vp := (vpPack (sampleRecord name (some count))).getD ⟨[], []⟩
  packs := by
    obtain ⟨vp, packed, _⟩ := exists_vp_sampleRecord name count
    exact ⟨_, sampleRecord_ofScheme name (some count), by rw [packed, Option.getD_some]⟩

theorem samplePacked_spec (name : CString) (count : BitVec 64) :
    vpPack (sampleRecord name (some count)) = some (samplePacked name count).vp ∧
      vpUnpack (samplePacked name count).vp sampleScheme = some (sampleRecord name (some count)) := by
  obtain ⟨vp, packed, unpacked⟩ := exists_vp_sampleRecord name count
  have same : (samplePacked name count).vp = vp := by
    simp only [samplePacked, packed, Option.getD_some]
  rw [same]
  exact ⟨packed, unpacked⟩

/-- Two records that expire at 3 and at 7. -/
def sampleTable (beyond : Vp → Nat → UInt8) : Ht (Packed sampleScheme) :=
  htPrepend (packedOps beyond sampleScheme)
    (htPrepend (packedOps beyond sampleScheme) (htInit 4096) (samplePacked ⟨[97], by decide⟩ 3))
    (samplePacked ⟨[98], by decide⟩ 7)

/-- The fields are named after `sampleScheme`; the janitor comes at 5. -/
def sampleDbt (beyond : Vp → Nat → UInt8) : Dbt :=
  { scheme := sampleScheme
    expireField := cstr "count"
    cleanupSchedule := 5
    cleanupDeleted := 0
    handle := (sampleTable beyond).map Packed.vp }

theorem sampleTable_walk (beyond : Vp → Nat → UInt8) : (htWalk (sampleTable beyond)).Perm
    [samplePacked ⟨[98], by decide⟩ 7, samplePacked ⟨[97], by decide⟩ 3] := by
  have positive : 0 < (htInit 4096 : Ht (Packed sampleScheme)).buckets := by simp only [htInit, Nat.ofNat_pos]
  have first := htPrepend_walk (packedOps beyond sampleScheme) positive (samplePacked ⟨[97], by decide⟩ 3)
  rw [htInit_walk] at first
  refine (htPrepend_walk _ ?_ _).trans (first.cons _)
  rw [htPrepend_buckets]
  exact positive

theorem sampleTable_placed (beyond : Vp → Nat → UInt8) :
    Placed (packedOps beyond sampleScheme) (sampleTable beyond) := by
  apply htPrepend_placed
  · apply htPrepend_placed (htInit_placed (by decide))
    rw [htInit_walk]
    simp
  · intro other member
    rw [(htPrepend_walk _ (by decide) _).mem_iff, htInit_walk, List.mem_singleton] at member
    subst member
    rw [Bool.eq_false_iff]
    intro same
    have keys := (packed_matching_iff beyond (by decide) (sampleRecord_ofScheme _ _)
      (sampleRecord_ofScheme _ _) (samplePacked_spec _ _).1 (samplePacked_spec _ _).1).mp same
    revert keys
    decide

theorem sampleTable_headed (beyond : Vp → Nat → UInt8) : Headed (sampleTable beyond) :=
  htPrepend_headed (htPrepend_headed (.inl rfl) _) _

/-- The record that expires at 3 is removed and the other one is kept. -/
theorem one_of_two_records_is_removed : ∃ (visited : List (List Field)) (after : Ht Vp),
    (∀ fuel, 2 < fuel → dbtJanitorCleanupWalk (fun _ _ => 0) true fuel (sampleDbt fun _ _ => 0) =
      some ⟨1, visited, { sampleDbt fun _ _ => 0 with handle := after, cleanupDeleted := 1 }⟩) ∧
    visited.Perm [sampleRecord ⟨[98], by decide⟩ (some 7), sampleRecord ⟨[97], by decide⟩ (some 3)] := by
  have walk : htWalk (sampleDbt fun _ _ => 0).handle =
      (htWalk (sampleTable fun _ _ => 0)).map Packed.vp := htWalk_map _ _
  have stored : ((htWalk (sampleDbt fun _ _ => 0).handle).map (vpUnpack · sampleScheme)).Perm
      [some (sampleRecord ⟨[98], by decide⟩ (some 7)), some (sampleRecord ⟨[97], by decide⟩ (some 3))] := by
    have unpacked := ((sampleTable_walk fun _ _ => 0).map Packed.vp).map (vpUnpack · sampleScheme)
    rw [← walk] at unpacked
    simpa only [List.map_cons, List.map_nil, (samplePacked_spec _ _).2] using unpacked
  obtain ⟨visited, after, ran, records, _, _, _⟩ := cleanup_walk_removes_expired (fun _ _ => 0) true
    (sampleDbt fun _ _ => 0) (sampleTable fun _ _ => 0) rfl (sampleTable_placed _)
    (by
      rcases sampleTable_headed fun _ _ => 0 with none' | filled
      · exact .inl none'
      · exact .inr fun empty => filled (List.map_eq_nil_iff.mp empty))
    (by
      intro vp member record unpacked
      have inside := stored.subset (List.mem_map_of_mem member)
      rw [show vpUnpack vp sampleScheme = some record from unpacked] at inside
      simp only [List.mem_cons, Option.some.injEq, List.not_mem_nil, or_false] at inside
      rcases inside with rfl | rfl <;> decide)
  have order : visited.Perm
      [sampleRecord ⟨[98], by decide⟩ (some 7), sampleRecord ⟨[97], by decide⟩ (some 3)] := by
    rw [show (sampleDbt fun _ _ => 0).scheme = sampleScheme from rfl] at records
    rw [records] at stored
    have := stored.filterMap id
    simpa using this
  have count : visited.countP (expired (sampleDbt fun _ _ => 0)) = 1 := by
    rw [order.countP_eq]
    decide
  have length : (htWalk (sampleDbt fun _ _ => 0).handle).length = 2 := by
    rw [← List.length_map (f := (vpUnpack · sampleScheme)), stored.length_eq]
    rfl
  rw [length, count] at ran
  exact ⟨visited, _, ran, order⟩

end Mopher.Cleanup
