import Mopher.Memdb.Vp
import Mopher.Ht.Refine
import Mopher.Ht.Map

/-!
# The memory database

Model of `memdb.c`: a hash table of packed records.  `memdb_record_match` compares
as many bytes as the first key has, so it may read behind a shorter second key;
`beyond` is what it finds there.  It makes no difference, since the key block of a
record tells where it ends.
-/

set_option autoImplicit false

namespace Mopher

/-! ## The driver -/

/-- One round of the loop of `hash_one_at_a_time`; a `char` is signed. -/
def hashRound (hash : UInt32) (c : UInt8) : UInt32 :=
  let hash := hash + c.toInt8.toInt32.toUInt32
  let hash := hash + (hash <<< 10)
  hash ^^^ (hash >>> 6)

def hashOneAtATime (key : Bytes) : UInt32 :=
  let hash := key.foldl hashRound 0
  let hash := hash + (hash <<< 3)
  let hash := hash ^^^ (hash >>> 11)
  hash + (hash <<< 15)

def memdbRecordHash (vp : Vp) : Nat := (hashOneAtATime vp.key).toNat

def memdbRecordMatch (beyond : Vp → Nat → UInt8) (vp1 vp2 : Vp) : Bool :=
  vp1.key == (vp2.key ++ (List.range vp1.key.length).map (beyond vp2)).take vp1.key.length

def memdbOps (beyond : Vp → Nat → UInt8) : HtOps Vp := ⟨memdbRecordHash, memdbRecordMatch beyond⟩

inductive MemdbCall where
  | set (record : List Field)
  | get (record : List Field)
  | del (record : List Field)

def MemdbCall.record : MemdbCall → List Field
  | .set record => record
  | .get record => record
  | .del record => record

/-- `memdb_open`, with `MEMDB_BUCKETS`. -/
def memdbOpen : Ht Vp := htInit 4096

section Driver
variable (beyond : Vp → Nat → UInt8)

/-- `memdb_get`; `none` is the return value -1, and `some none` no record. -/
def memdbGet (scheme : List FieldSpec) (ht : Ht Vp) (record : List Field) :
    Option (Option (List Field)) :=
  match vpPack record with
  | none => none
  | some key =>
      match htLookup (memdbOps beyond) ht key with
      | none => some none
      | some data => (vpUnpack data scheme).map some

/-- `memdb_set`; `false` is the return value -1. -/
def memdbSet (depth : Nat) (ht : Ht Vp) (record : List Field) : Option (Bool × Ht Vp) :=
  match vpPack record with
  | none => some (false, ht)
  | some vp => htInsert (memdbOps beyond) depth (htRemove (memdbOps beyond) ht vp) vp

def memdbDel (ht : Ht Vp) (record : List Field) : Bool × Ht Vp :=
  match vpPack record with
  | none => (false, ht)
  | some vp => (true, htRemove (memdbOps beyond) ht vp)

def memdbStep (depth : Nat) (scheme : List FieldSpec) (ht : Ht Vp) : MemdbCall → Option (Bool × Ht Vp)
  | .set record => memdbSet beyond depth ht record
  | .get record => some ((memdbGet beyond scheme ht record).isSome, ht)
  | .del record => some (memdbDel beyond ht record)

/-- A run of calls that all succeed. -/
def memdbRun (depth : Nat) (scheme : List FieldSpec) (ht : Ht Vp) : List MemdbCall → Option (Ht Vp)
  | [] => some ht
  | call :: rest =>
      match memdbStep beyond depth scheme ht call with
      | some (true, next) => memdbRun depth scheme next rest
      | _ => none

end Driver

/-! ## The map -/

/-- What a call does to a map from the bytes of the key fields to records. -/
def mapStep (stored : List Bytes → Option (List Field)) :
    MemdbCall → List Bytes → Option (List Field)
  | .set record => Function.update stored (keyOf record) (some record)
  | .get _ => stored
  | .del record => Function.update stored (keyOf record) none

/-- The record that was set last for each key and was not deleted since. -/
def mapRun (calls : List MemdbCall) : List Bytes → Option (List Field) :=
  calls.foldl mapStep fun _ => none

/-! ## Packed records of one scheme -/

/-- The packed records that a table of the scheme can hold. -/
@[ext] structure Packed (scheme : List FieldSpec) where
  vp : Vp
  packs : ∃ record, OfScheme scheme record ∧ vpPack record = some vp

abbrev packedOps (beyond : Vp → Nat → UInt8) (scheme : List FieldSpec) : HtOps (Packed scheme) :=
  (memdbOps beyond).comap Packed.vp

section Packed
variable {scheme : List FieldSpec} {beyond : Vp → Nat → UInt8}

/-- `memdb_record_match` compares the key fields. -/
theorem memdbRecordMatch_iff (small : scheme.length ≤ 64) {a b : List Field} {vpA vpB : Vp}
    (ofA : OfScheme scheme a) (ofB : OfScheme scheme b) (packedA : vpPack a = some vpA)
    (packedB : vpPack b = some vpB) :
    memdbRecordMatch beyond vpA vpB = true ↔ keyOf a = keyOf b := by
  obtain ⟨vpA', packedA', keyA, _⟩ := vpPack_spec small ofA
  obtain rfl : vpA = vpA' := Option.some.inj (packedA.symm.trans packedA')
  obtain ⟨vpB', packedB', keyB, _⟩ := vpPack_spec small ofB
  obtain rfl : vpB = vpB' := Option.some.inj (packedB.symm.trans packedB')
  simp only [memdbRecordMatch, beq_iff_eq]
  constructor
  · intro same
    have memory := List.take_append_drop vpA.key.length
      (vpB.key ++ (List.range vpA.key.length).map (beyond vpB))
    rw [← same, keyA, keyB] at memory
    exact keyOf_inj ofA ofB memory
  · intro same
    have keys : vpA.key = vpB.key := by rw [keyA, keyB, same]
    rw [keys, List.take_left]

theorem packed_matching_iff (beyond : Vp → Nat → UInt8) (small : scheme.length ≤ 64) {a b : List Field} {p q : Packed scheme}
    (ofA : OfScheme scheme a) (ofB : OfScheme scheme b) (packedA : vpPack a = some p.vp)
    (packedB : vpPack b = some q.vp) :
    (packedOps beyond scheme).matching p q = true ↔ keyOf a = keyOf b :=
  memdbRecordMatch_iff small ofA ofB packedA packedB

theorem memdbOps_lawful (beyond : Vp → Nat → UInt8) (small : scheme.length ≤ 64) :
    (packedOps beyond scheme).Lawful where
  refl p := by
    obtain ⟨a, ofA, packedA⟩ := p.packs
    rw [packed_matching_iff beyond small ofA ofA packedA packedA]
  symm p q same := by
    obtain ⟨a, ofA, packedA⟩ := p.packs
    obtain ⟨b, ofB, packedB⟩ := q.packs
    rw [packed_matching_iff beyond small ofA ofB packedA packedB] at same
    rw [packed_matching_iff beyond small ofB ofA packedB packedA, same]
  trans p q r first second := by
    obtain ⟨a, ofA, packedA⟩ := p.packs
    obtain ⟨b, ofB, packedB⟩ := q.packs
    obtain ⟨c, ofC, packedC⟩ := r.packs
    rw [packed_matching_iff beyond small ofA ofB packedA packedB] at first
    rw [packed_matching_iff beyond small ofB ofC packedB packedC] at second
    rw [packed_matching_iff beyond small ofA ofC packedA packedC, first, second]
  hash p q same := by
    obtain ⟨a, ofA, packedA⟩ := p.packs
    obtain ⟨b, ofB, packedB⟩ := q.packs
    rw [packed_matching_iff beyond small ofA ofB packedA packedB] at same
    obtain ⟨vpA, packedA', keyA, _⟩ := vpPack_spec small ofA
    obtain rfl : p.vp = vpA := Option.some.inj (packedA.symm.trans packedA')
    obtain ⟨vpB, packedB', keyB, _⟩ := vpPack_spec small ofB
    obtain rfl : q.vp = vpB := Option.some.inj (packedB.symm.trans packedB')
    simp only [HtOps.comap, memdbOps, memdbRecordHash, keyA, keyB, same]

/-- A record is packed and read back as it was. -/
theorem exists_packed (small : scheme.length ≤ 64) {record : List Field} (of : OfScheme scheme record) :
    ∃ p : Packed scheme, vpPack record = some p.vp ∧ vpUnpack p.vp scheme = some record := by
  obtain ⟨vp, packed, _, unpacked⟩ := vpPack_spec small of
  exact ⟨⟨vp, record, of, packed⟩, packed, unpacked⟩

/-- Records that are packed alike are the same. -/
theorem packed_inj (small : scheme.length ≤ 64) {a b : List Field} {vp : Vp}
    (ofA : OfScheme scheme a) (ofB : OfScheme scheme b) (packedA : vpPack a = some vp)
    (packedB : vpPack b = some vp) : a = b := by
  obtain ⟨vpA, packedA', _, unpackedA⟩ := vpPack_spec small ofA
  obtain rfl : vp = vpA := Option.some.inj (packedA.symm.trans packedA')
  obtain ⟨vpB, packedB', _, unpackedB⟩ := vpPack_spec small ofB
  obtain rfl : vp = vpB := Option.some.inj (packedB.symm.trans packedB')
  exact Option.some.inj (unpackedA.symm.trans unpackedB)

end Packed

/-! ## The database is the map -/

/-- The table has the packed records of the map. -/
structure Stores (beyond : Vp → Nat → UInt8) {scheme : List FieldSpec} (t : Ht (Packed scheme))
    (stored : List Bytes → Option (List Field)) : Prop where
  balanced : Balanced (packedOps beyond scheme) t
  content : ∀ record p, OfScheme scheme record → vpPack record = some p.vp →
    (p ∈ htWalk t ↔ stored (keyOf record) = some record)
  keyed : ∀ key record, stored key = some record → OfScheme scheme record ∧ keyOf record = key

section Refinement
variable {scheme : List FieldSpec} {beyond : Vp → Nat → UInt8} {t : Ht (Packed scheme)}
  {stored : List Bytes → Option (List Field)}

/-- `memdb_get` returns the record of the map. -/
theorem memdbGet_stores (small : scheme.length ≤ 64) (stores : Stores beyond t stored)
    {record : List Field} (of : OfScheme scheme record) :
    memdbGet beyond scheme (t.map Packed.vp) record = some (stored (keyOf record)) := by
  have lawful := memdbOps_lawful beyond small
  have placed := stores.balanced.toPlaced
  obtain ⟨p, packed, _⟩ := exists_packed small of
  have lookup := htLookup_map Packed.vp (memdbOps beyond) t p
  cases found : htLookup (packedOps beyond scheme) t p with
  | none =>
      rw [found, Option.map_none] at lookup
      have absent := (htLookup_eq_none_iff lawful placed p).mp found
      have none' : stored (keyOf record) = none := by
        by_contra some'
        obtain ⟨other, held⟩ := Option.ne_none_iff_exists'.mp some'
        obtain ⟨ofOther, keys⟩ := stores.keyed _ _ held
        obtain ⟨q, packedOther, _⟩ := exists_packed small ofOther
        have member := (stores.content other q ofOther packedOther).mpr (by rw [keys, held])
        have same := (packed_matching_iff beyond small of ofOther packed packedOther).mpr
          keys.symm
        rw [absent q member] at same
        cases same
      simp only [memdbGet, packed, lookup, none']
  | some q =>
      rw [found, Option.map_some] at lookup
      obtain ⟨member, same⟩ := (htLookup_eq_some_iff lawful placed p q).mp found
      obtain ⟨other, ofOther, packedOther⟩ := q.packs
      obtain ⟨q', packed', unpacked⟩ := exists_packed small ofOther
      obtain rfl : q = q' := Packed.ext (Option.some.inj (packedOther.symm.trans packed'))
      have held := (stores.content other q ofOther packedOther).mp member
      rw [packed_matching_iff beyond small of ofOther packed packedOther] at same
      simp only [memdbGet, packed, lookup, unpacked, Option.map_some, same, held]

/-- Removing a packed record removes its key from the map. -/
theorem htRemove_stores (small : scheme.length ≤ 64) (stores : Stores beyond t stored)
    {record : List Field} (of : OfScheme scheme record) {p : Packed scheme}
    (packed : vpPack record = some p.vp) :
    Stores beyond (htRemove (packedOps beyond scheme) t p)
      (Function.update stored (keyOf record) none) := by
  have lawful := memdbOps_lawful beyond small
  have placed := stores.balanced.toPlaced
  refine ⟨htRemove_balanced lawful stores.balanced p, ?_, ?_⟩
  · intro other q ofOther packedOther
    rw [htRemove_walk lawful placed, List.mem_filter, stores.content other q ofOther packedOther]
    by_cases same : keyOf other = keyOf record
    · have matching := (packed_matching_iff beyond small of ofOther packed packedOther).mpr
        same.symm
      simp [same, matching]
    · have apart : (packedOps beyond scheme).matching p q = false := by
        rw [Bool.eq_false_iff]
        intro matching
        rw [packed_matching_iff beyond small of ofOther packed packedOther] at matching
        exact same matching.symm
      simp [Function.update_of_ne same, apart]
  · intro key other held
    by_cases same : key = keyOf record
    · subst same
      rw [Function.update_self] at held
      cases held
    · rw [Function.update_of_ne same] at held
      exact stores.keyed key other held

/-- Inserting the packed record of a key that the map does not have adds it. -/
theorem htInsert_stores (small : scheme.length ≤ 64) (stores : Stores beyond t stored)
    {record : List Field} (of : OfScheme scheme record) {p : Packed scheme}
    (packed : vpPack record = some p.vp) (absent : stored (keyOf record) = none) :
    ∃ new, (∀ depth, htInsert (packedOps beyond scheme) (depth + 2) t p =
        some (true, new)) ∧
      Stores beyond new (Function.update stored (keyOf record) (some record)) := by
  have lawful := memdbOps_lawful beyond small
  have placed := stores.balanced.toPlaced
  have fresh : htLookup (packedOps beyond scheme) t p = none := by
    rw [htLookup_eq_none_iff lawful placed]
    intro q member
    rw [Bool.eq_false_iff]
    intro matching
    obtain ⟨other, ofOther, packedOther⟩ := q.packs
    rw [packed_matching_iff beyond small of ofOther packed packedOther] at matching
    have held := (stores.content other q ofOther packedOther).mp member
    rw [← matching, absent] at held
    cases held
  obtain ⟨new, inserted, balanced, walk⟩ := htInsert_new lawful stores.balanced fresh
  refine ⟨new, inserted, balanced, ?_, ?_⟩
  · intro other q ofOther packedOther
    rw [walk.mem_iff, List.mem_cons, stores.content other q ofOther packedOther]
    by_cases same : keyOf other = keyOf record
    · rw [same, Function.update_self, absent, Option.some.injEq]
      constructor
      · rintro (rfl | held)
        · exact packed_inj small of ofOther packed packedOther
        · cases held
      · rintro rfl
        exact .inl (Packed.ext (Option.some.inj (packedOther.symm.trans packed)))
    · rw [Function.update_of_ne same]
      refine ⟨?_, .inr⟩
      rintro (rfl | held)
      · exact (same (by rw [packed_inj small of ofOther packed packedOther])).elim
      · exact held
  · intro key other held
    by_cases same : key = keyOf record
    · subst same
      rw [Function.update_self, Option.some.injEq] at held
      subst held
      exact ⟨of, rfl⟩
    · rw [Function.update_of_ne same] at held
      exact stores.keyed key other held

/-- Every call succeeds and does what it does to the map. -/
theorem memdbStep_stores (small : scheme.length ≤ 64) (stores : Stores beyond t stored)
    {call : MemdbCall} (of : OfScheme scheme call.record) :
    ∃ new : Ht (Packed scheme),
      (∀ depth, memdbStep beyond (depth + 2) scheme (t.map Packed.vp) call =
        some (true, new.map Packed.vp)) ∧ Stores beyond new (mapStep stored call) := by
  obtain ⟨p, packed, _⟩ := exists_packed small of
  cases call with
  | get record =>
      refine ⟨t, fun _ => ?_, stores⟩
      have got : memdbGet beyond scheme (t.map Packed.vp) record = _ := memdbGet_stores small stores of
      simp only [memdbStep, got, Option.isSome_some]
  | del record =>
      refine ⟨_, fun _ => ?_, htRemove_stores small stores of packed⟩
      simp only [MemdbCall.record] at packed
      simp only [memdbStep, memdbDel, packed, htRemove_map]
  | set record =>
      have removed := htRemove_stores small stores of packed
      obtain ⟨new, inserted, stores'⟩ := htInsert_stores small removed of packed
        (Function.update_self _ _ _)
      refine ⟨new, fun depth => ?_, ?_⟩
      · simp only [MemdbCall.record] at packed
        simp only [memdbStep, memdbSet, packed, htRemove_map, htInsert_map, inserted depth, mapAnswer,
          Option.map_some]
      · rw [Function.update_idem] at stores'
        exact stores'

theorem memdbRun_stores (small : scheme.length ≤ 64) (calls : List MemdbCall) :
    ∀ (t : Ht (Packed scheme)) (stored : List Bytes → Option (List Field)), Stores beyond t stored →
    (∀ call ∈ calls, OfScheme scheme call.record) →
    ∃ new : Ht (Packed scheme),
      (∀ depth, memdbRun beyond (depth + 2) scheme (t.map Packed.vp) calls =
        some (new.map Packed.vp)) ∧ Stores beyond new (calls.foldl mapStep stored) := by
  induction calls with
  | nil => intro t stored stores _; exact ⟨t, fun _ => rfl, stores⟩
  | cons call rest ih =>
      intro t stored stores of
      obtain ⟨next, stepped, stores'⟩ := memdbStep_stores small stores (of call List.mem_cons_self)
      obtain ⟨new, ran, storesNew⟩ := ih next _ stores' fun other member =>
        of other (List.mem_cons_of_mem _ member)
      refine ⟨new, fun depth => ?_, storesNew⟩
      simp only [memdbRun, stepped depth]
      exact ran depth

end Refinement

/-- A string as the key, and a number and a blob. -/
def sampleScheme : List FieldSpec :=
  [⟨.string, cstr "name", true⟩, ⟨.int, cstr "count", false⟩, ⟨.blob, cstr "note", false⟩]

def sampleRecord (name : CString) (count : Option (BitVec 64)) : List Field :=
  [⟨⟨.string, cstr "name", true⟩, some (.string name)⟩,
    ⟨⟨.int, cstr "count", false⟩, count.map .int⟩, ⟨⟨.blob, cstr "note", false⟩, none⟩]

theorem sampleRecord_ofScheme (name : CString) (count : Option (BitVec 64)) :
    OfScheme sampleScheme (sampleRecord name count) :=
  ⟨rfl, by simp [sampleRecord]⟩

end Mopher
