import Mopher.Memdb.Store
import Mopher.Ht.Iterate

/-!
# String hash tables

Model of `sht.c`: the hash table of `ht.c` with records of a key and a pointer.  Of the
pointers only those that are not `NULL` are somebody's data.  The table owns them: it
calls `sht_delete` on what it drops.  `destroyed` and `accepted` are no part of the
program; they keep what `sht_delete` was called with and what `sht_insert` took.

`sht_clear` finds the data with `ht_next`, which starts at `ht_head`, and frees the
records with `ht_delete`, which goes over every chain.
-/

set_option autoImplicit false

namespace Mopher.StringTable

/-- `sht_record_t`. -/
structure ShtRecord (α : Type) where
  key : Bytes
  data : Option α
deriving DecidableEq

section Model
variable {α : Type}

def shtRecordHash (sr : ShtRecord α) : Nat := (hashOneAtATime sr.key).toNat

/-- `strcmp` finds no difference. -/
def shtRecordMatch (sr1 sr2 : ShtRecord α) : Bool := sr1.key == sr2.key

def shtOps : HtOps (ShtRecord α) := ⟨shtRecordHash, shtRecordMatch⟩

/-- `sht_t`; `ht` is `none` when `sht_ht` is `NULL`. -/
structure Sht (α : Type) where
  ht : Option (Ht (ShtRecord α))
  delete : Bool
  destroyed : List α
  accepted : List α

/-- `sht_init`. -/
def shtInit (buckets : Nat) (delete : Bool) : Sht α := ⟨some (htInit buckets), delete, [], []⟩

/-- `sht_insert`; `memory` says whether the record can be allocated.  There is no result
where the table is `NULL`. -/
def shtInsert (depth : Nat) (sht : Sht α) (key : Bytes) (data : Option α) (memory : Bool) :
    Option (Int × Sht α) :=
  if !memory then some (-1, sht)
  else
    sht.ht.bind fun t =>
      (htInsert shtOps depth t ⟨key, data⟩).map fun (inserted, t) =>
        if inserted then (0, { sht with ht := some t, accepted := sht.accepted ++ data.toList })
        else (-1, { sht with ht := some t })

/-- `sht_lookup`: the pointer, which is also `NULL` when there is no record. -/
def shtLookup (sht : Sht α) (key : Bytes) : Option (Option α) :=
  sht.ht.map fun t => (htLookup shtOps t ⟨key, none⟩).bind ShtRecord.data

def shtRemove (sht : Sht α) (key : Bytes) : Option (Sht α) :=
  sht.ht.map fun t =>
    match htLookup shtOps t ⟨key, none⟩ with
    | none => sht
    | some sr =>
        { sht with
          ht := some (htRemove shtOps t sr)
          destroyed := if sht.delete then sht.destroyed ++ sr.data.toList else sht.destroyed }

def shtReplace (depth : Nat) (sht : Sht α) (key : Bytes) (data : Option α) (memory : Bool) :
    Option (Int × Sht α) :=
  (shtRemove sht key).bind fun sht => shtInsert depth sht key data memory

/-- The loop of `sht_clear`: the data that `ht_next` comes to. -/
def shtDrain (t : Ht (ShtRecord α)) : Nat → HtPos (ShtRecord α) → Option (List α)
  | 0, _ => none
  | fuel + 1, pos =>
      match htNext t pos with
      | (none, _) => some []
      | (some sr, pos) => (shtDrain t fuel pos).map (sr.data.toList ++ ·)

/-- `sht_clear`, which leaves a table of zeros. -/
def shtClear (fuel : Nat) (sht : Sht α) : Option (Sht α) :=
  if sht.delete then
    sht.ht.bind fun t =>
      (shtDrain t fuel (htStart t)).map fun found =>
        ⟨none, false, sht.destroyed ++ found, sht.accepted⟩
  else some ⟨none, false, sht.destroyed, sht.accepted⟩

inductive ShtCall (α : Type) where
  | insert (key : Bytes) (data : Option α) (memory : Bool)
  | lookup (key : Bytes)
  | remove (key : Bytes)
  | replace (key : Bytes) (data : Option α) (memory : Bool)

/-- What a call returns; `remove` returns nothing. -/
inductive ShtAnswer (α : Type) where
  | status (r : Int)
  | data (found : Option α)
  | nothing

def shtCall (depth : Nat) (sht : Sht α) : ShtCall α → Option (ShtAnswer α × Sht α)
  | .insert key data memory =>
      (shtInsert depth sht key data memory).map fun (r, sht) => (.status r, sht)
  | .lookup key => (shtLookup sht key).map fun found => (.data found, sht)
  | .remove key => (shtRemove sht key).map fun sht => (.nothing, sht)
  | .replace key data memory =>
      (shtReplace depth sht key data memory).map fun (r, sht) => (.status r, sht)

def shtRun (depth : Nat) : Sht α → List (ShtCall α) → Option (List (ShtAnswer α) × Sht α)
  | sht, [] => some ([], sht)
  | sht, call :: rest =>
      (shtCall depth sht call).bind fun (answer, sht) =>
        (shtRun depth sht rest).map fun (answers, sht) => (answer :: answers, sht)

end Model

/-! ## Maps -/

section Maps
variable {α : Type}

/-- The pointers under the keys that are stored. -/
abbrev PtrMap (α : Type) := Bytes → Option (Option α)

def mapInsert (m : PtrMap α) (key : Bytes) (data : Option α) (memory : Bool) : Int × PtrMap α :=
  if memory ∧ m key = none then (0, Function.update m key (some data)) else (-1, m)

def mapCall (m : PtrMap α) : ShtCall α → ShtAnswer α × PtrMap α
  | .insert key data memory => (.status (mapInsert m key data memory).1, (mapInsert m key data memory).2)
  | .lookup key => (.data (m key).join, m)
  | .remove key => (.nothing, Function.update m key none)
  | .replace key data memory =>
      let r := mapInsert (Function.update m key none) key data memory
      (.status r.1, r.2)

def mapRun : PtrMap α → List (ShtCall α) → List (ShtAnswer α) × PtrMap α
  | m, [] => ([], m)
  | m, call :: rest =>
      let r := mapRun (mapCall m call).2 rest
      ((mapCall m call).1 :: r.1, r.2)

end Maps

/-! ## What a table holds -/

section Refine

open scoped List

variable {α : Type}

theorem shtOps_lawful : (shtOps : HtOps (ShtRecord α)).Lawful where
  refl a := beq_self_eq_true a.key
  symm a b same := by
    have keys : a.key = b.key := eq_of_beq same
    exact beq_iff_eq.mpr keys.symm
  trans a b c first second := by
    have keys : a.key = b.key := eq_of_beq first
    have keys' : b.key = c.key := eq_of_beq second
    exact beq_iff_eq.mpr (keys.trans keys')
  hash a b same := by
    have keys : a.key = b.key := eq_of_beq same
    show (hashOneAtATime a.key).toNat = (hashOneAtATime b.key).toNat
    rw [keys]

theorem matching_iff (key : Bytes) (data : Option α) (sr : ShtRecord α) :
    shtOps.matching ⟨key, data⟩ sr = true ↔ sr.key = key := by
  show (key == sr.key) = true ↔ sr.key = key
  rw [beq_iff_eq, eq_comm]

/-- The table is there, and has the pointers of a map under their keys. -/
structure Holds (sht : Sht α) (t : Ht (ShtRecord α)) (m : PtrMap α) : Prop where
  table : sht.ht = some t
  balanced : Balanced shtOps t
  content : ∀ sr, sr ∈ htWalk t ↔ m sr.key = some sr.data

/-- The data in a table. -/
def stored (t : Ht (ShtRecord α)) : List α := (htWalk t).filterMap ShtRecord.data

/-- The data that were taken were destroyed or are stored, each once. -/
def Settled (sht : Sht α) (t : Ht (ShtRecord α)) : Prop :=
  (sht.destroyed ++ stored t).Perm sht.accepted

variable {sht : Sht α} {t : Ht (ShtRecord α)} {m : PtrMap α}

theorem Holds.found (holds : Holds sht t m) (key : Bytes) (data : Option α) (sr : ShtRecord α) :
    htLookup shtOps t ⟨key, data⟩ = some sr ↔ sr.key = key ∧ m key = some sr.data := by
  rw [htLookup_eq_some_iff shtOps_lawful holds.balanced.toPlaced, holds.content, matching_iff]
  constructor
  · rintro ⟨here, rfl⟩
    exact ⟨rfl, here⟩
  · rintro ⟨rfl, here⟩
    exact ⟨here, rfl⟩

theorem Holds.lookup (holds : Holds sht t m) (key : Bytes) :
    htLookup shtOps t ⟨key, none⟩ = (m key).map fun data => ⟨key, data⟩ := by
  cases here : m key with
  | none =>
      rw [Option.map_none, Option.eq_none_iff_forall_ne_some]
      intro sr found
      rw [holds.found, here] at found
      cases found.2
  | some data => exact (holds.found key none ⟨key, data⟩).mpr ⟨rfl, here⟩

theorem shtLookup_spec (holds : Holds sht t m) (key : Bytes) :
    shtLookup sht key = some (m key).join := by
  rw [shtLookup, holds.table, Option.map_some, holds.lookup]
  cases m key with
  | none => rfl
  | some data => rfl

theorem shtInsert_spec (holds : Holds sht t m) (key : Bytes) (data : Option α) (memory : Bool) :
    ∃ sht' t', (∀ depth, shtInsert (depth + 2) sht key data memory =
        some ((mapInsert m key data memory).1, sht')) ∧
      Holds sht' t' (mapInsert m key data memory).2 ∧ sht'.delete = sht.delete ∧
      (Settled sht t → Settled sht' t') := by
  cases memory with
  | false => exact ⟨sht, t, fun _ => rfl, holds, rfl, id⟩
  | true =>
      cases here : m key with
      | some old =>
          have found : htLookup shtOps t ⟨key, data⟩ = some ⟨key, old⟩ :=
            (holds.found key data _).mpr ⟨rfl, here⟩
          have refused : mapInsert m key data true = (-1, m) := if_neg (by simp [here])
          refine ⟨{ sht with ht := some t }, t, fun depth => ?_, ?_, rfl, id⟩
          · rw [shtInsert, holds.table]
            simp only [Bool.not_true, Bool.false_eq_true, if_false, Option.bind_some,
              htInsert_duplicate found, Option.map_some, refused]
          · rw [refused]
            exact ⟨rfl, holds.balanced, holds.content⟩
      | none =>
          have absent : htLookup shtOps t ⟨key, data⟩ = none := by
            rw [Option.eq_none_iff_forall_ne_some]
            intro sr found
            rw [holds.found, here] at found
            cases found.2
          obtain ⟨new, inserted, balanced, walk⟩ := htInsert_new shtOps_lawful holds.balanced absent
          have taken : mapInsert m key data true = (0, Function.update m key (some data)) :=
            if_pos ⟨rfl, here⟩
          refine ⟨{ sht with ht := some new, accepted := sht.accepted ++ data.toList }, new,
            fun depth => ?_, ?_, rfl, fun settled => ?_⟩
          · rw [shtInsert, holds.table]
            simp only [Bool.not_true, Bool.false_eq_true, if_false, Option.bind_some, inserted depth,
              Option.map_some, if_true, taken]
          · rw [taken]
            refine ⟨rfl, balanced, fun sr => ?_⟩
            rw [walk.mem_iff, List.mem_cons, holds.content]
            simp only []
            by_cases same : sr.key = key
            · rw [same, here, Function.update_self]
              constructor
              · rintro (rfl | impossible)
                · rfl
                · cases impossible
              · intro data'
                left
                cases sr
                cases same
                cases data'
                rfl
            · rw [Function.update_of_ne same, or_iff_right]
              rintro rfl
              exact same rfl
          · have more : (stored new).Perm (data.toList ++ stored t) := by
              apply (walk.filterMap ShtRecord.data).trans
              cases data with
              | none => exact List.Perm.refl _
              | some datum => exact List.Perm.refl _
            show (sht.destroyed ++ stored new).Perm (sht.accepted ++ data.toList)
            calc sht.destroyed ++ stored new
              _ ~ sht.destroyed ++ (data.toList ++ stored t) := more.append_left _
              _ ~ sht.destroyed ++ (stored t ++ data.toList) := List.perm_append_comm.append_left _
              _ = sht.destroyed ++ stored t ++ data.toList := (List.append_assoc _ _ _).symm
              _ ~ sht.accepted ++ data.toList := settled.append_right _

/-- One record of a table, taken out. -/
theorem stored_remove (holds : Holds sht t m) {sr : ShtRecord α} (member : sr ∈ htWalk t) :
    stored t ~ sr.data.toList ++ stored (htRemove shtOps t sr) := by
  have placed := holds.balanced.toPlaced
  have distinct := placed.walk_distinct shtOps_lawful
  have only : (htWalk t).filter (shtOps.matching sr) = [sr] := by
    have all : ∀ other ∈ (htWalk t).filter (shtOps.matching sr), other = sr := by
      intro other inside
      obtain ⟨inside, same⟩ := List.mem_filter.mp inside
      exact (eq_of_matching shtOps_lawful distinct member inside same).symm
    have apart := distinct.filter (shtOps.matching sr)
    have here : sr ∈ (htWalk t).filter (shtOps.matching sr) :=
      List.mem_filter.mpr ⟨member, shtOps_lawful.refl sr⟩
    match split : (htWalk t).filter (shtOps.matching sr) with
    | [] => rw [split] at here; cases here
    | [first] => rw [split] at all; rw [all first List.mem_cons_self]
    | first :: second :: rest =>
        rw [split] at all apart
        have differ := (List.pairwise_cons.mp apart).1 second List.mem_cons_self
        rw [all first List.mem_cons_self,
          all second (List.mem_cons_of_mem _ List.mem_cons_self), shtOps_lawful.refl] at differ
        cases differ
  have split := List.filter_append_perm (shtOps.matching sr) (htWalk t)
  rw [only, ← htRemove_walk shtOps_lawful placed] at split
  apply (split.filterMap ShtRecord.data).symm.trans
  rw [List.filterMap_append]
  apply List.Perm.append_right
  cases data : sr.data with
  | none => simp [data]
  | some datum => simp [data]

theorem shtRemove_spec (holds : Holds sht t m) (key : Bytes) :
    ∃ sht' t', shtRemove sht key = some sht' ∧ Holds sht' t' (Function.update m key none) ∧
      sht'.delete = sht.delete ∧ (sht.delete = true → Settled sht t → Settled sht' t') := by
  rw [shtRemove, holds.table, Option.map_some, holds.lookup]
  cases here : m key with
  | none =>
      refine ⟨sht, t, rfl, ?_, rfl, fun _ settled => settled⟩
      rw [← here, Function.update_eq_self]
      exact holds
  | some data =>
      have member : (⟨key, data⟩ : ShtRecord α) ∈ htWalk t := (holds.content _).mpr here
      refine ⟨_, htRemove shtOps t ⟨key, data⟩, rfl, ?_, rfl, fun owner settled => ?_⟩
      · refine ⟨rfl, htRemove_balanced shtOps_lawful holds.balanced _, fun sr => ?_⟩
        rw [htRemove_walk shtOps_lawful holds.balanced.toPlaced, List.mem_filter, holds.content,
          Bool.not_eq_true', Bool.eq_false_iff, ne_eq, matching_iff]
        by_cases same : sr.key = key
        · rw [same, Function.update_self]
          simp
        · rw [Function.update_of_ne same]
          simp [same]
      · show (if sht.delete then sht.destroyed ++ data.toList else sht.destroyed) ++
          stored (htRemove shtOps t ⟨key, data⟩) ~ sht.accepted
        rw [if_pos owner, List.append_assoc]
        exact ((stored_remove holds member).symm.append_left _).trans settled

/-! ## Runs -/

theorem shtCall_spec (holds : Holds sht t m) (call : ShtCall α) :
    ∃ sht' t', (∀ depth, shtCall (depth + 2) sht call = some ((mapCall m call).1, sht')) ∧
      Holds sht' t' (mapCall m call).2 ∧ sht'.delete = sht.delete ∧
      (sht.delete = true → Settled sht t → Settled sht' t') := by
  cases call with
  | insert key data memory =>
      obtain ⟨sht', t', done, holds', delete, settled⟩ := shtInsert_spec holds key data memory
      refine ⟨sht', t', fun depth => ?_, holds', delete, fun _ => settled⟩
      rw [shtCall, done depth]
      rfl
  | lookup key =>
      refine ⟨sht, t, fun depth => ?_, holds, rfl, fun _ settled => settled⟩
      rw [shtCall, shtLookup_spec holds]
      rfl
  | remove key =>
      obtain ⟨sht', t', done, holds', delete, settled⟩ := shtRemove_spec holds key
      refine ⟨sht', t', fun depth => ?_, holds', delete, settled⟩
      rw [shtCall, done]
      rfl
  | replace key data memory =>
      obtain ⟨sht₁, t₁, removed, holds₁, delete₁, settled₁⟩ := shtRemove_spec holds key
      obtain ⟨sht₂, t₂, inserted, holds₂, delete₂, settled₂⟩ :=
        shtInsert_spec holds₁ key data memory
      refine ⟨sht₂, t₂, fun depth => ?_, holds₂, delete₂.trans delete₁, fun owner settled => ?_⟩
      · rw [shtCall, shtReplace, removed, Option.bind_some, inserted depth]
        rfl
      · exact settled₂ (settled₁ owner settled)

theorem shtRun_spec (calls : List (ShtCall α)) : ∀ {sht : Sht α} {t : Ht (ShtRecord α)}
    {m : PtrMap α}, Holds sht t m →
    ∃ sht' t', (∀ depth, shtRun (depth + 2) sht calls = some ((mapRun m calls).1, sht')) ∧
      Holds sht' t' (mapRun m calls).2 ∧ sht'.delete = sht.delete ∧
      (sht.delete = true → Settled sht t → Settled sht' t') := by
  induction calls with
  | nil =>
      intro sht t m holds
      exact ⟨sht, t, fun _ => rfl, holds, rfl, fun _ settled => settled⟩
  | cons call rest ih =>
      intro sht t m holds
      obtain ⟨sht₁, t₁, called, holds₁, delete₁, settled₁⟩ := shtCall_spec holds call
      obtain ⟨sht₂, t₂, ran, holds₂, delete₂, settled₂⟩ := ih holds₁
      refine ⟨sht₂, t₂, fun depth => ?_, holds₂, delete₂.trans delete₁, fun owner settled => ?_⟩
      · rw [shtRun, called depth, Option.bind_some]
        simp only [ran depth, Option.map_some]
        rfl
      · exact settled₂ (delete₁.trans owner) (settled₁ owner settled)

theorem shtInit_holds {buckets : Nat} (positive : 0 < buckets) (delete : Bool) :
    Holds (shtInit buckets delete : Sht α) (htInit buckets) fun _ => none := by
  refine ⟨rfl, htInit_balanced positive, fun sr => ?_⟩
  rw [htInit_walk]
  simp

theorem shtDrain_remaining (l : List (ShtRecord α)) : ∀ (pos : HtPos (ShtRecord α)) (fuel : Nat),
    (pos.record ≠ [] → pos.bucket < t.buckets) → remaining t pos = l → l.length < fuel →
    shtDrain t fuel pos = some (l.filterMap ShtRecord.data) := by
  induction l with
  | nil =>
      intro pos fuel _ nothing enough
      have ended : pos.record = [] := by
        cases records : pos.record with
        | nil => rfl
        | cons sr rest => simp [remaining, records] at nothing
      obtain ⟨fuel, rfl⟩ := Nat.exists_eq_add_of_lt enough
      rw [shtDrain, htNext_end ended]
      rfl
  | cons sr l ih =>
      intro pos fuel inside rest enough
      cases records : pos.record with
      | nil => simp [remaining, records] at rest
      | cons first others =>
          obtain ⟨returned, split, inside'⟩ := htNext_spec (inside (by simp [records])) records
          rw [split] at rest
          obtain ⟨rfl, rest'⟩ := List.cons.inj rest
          cases fuel with
          | zero => cases enough
          | succ fuel =>
              have later := ih _ fuel inside' rest' (Nat.lt_of_succ_lt_succ enough)
              rw [shtDrain]
              cases next : htNext t pos with
              | mk found pos' =>
                  rw [next] at returned later
                  cases returned
                  simp only [later, Option.map_some]
                  cases data : first.data with
                  | none => simp [data]
                  | some datum => simp [data]

/-- What an iteration with `sht_next` comes to: all data, or nothing where the chain at
`ht_head` is empty. -/
theorem shtDrain_start (placed : Placed shtOps t) {fuel : Nat} (enough : (htWalk t).length < fuel) :
    shtDrain t fuel (htStart t) =
      some (if t.records = 0 ∨ t.table t.head ≠ [] then stored t else []) := by
  by_cases headed : t.records = 0 ∨ t.table t.head ≠ []
  · have all := remaining_htStart placed headed
    have inside : (htStart t).record ≠ [] → (htStart t).bucket < t.buckets := by
      intro some'
      unfold htStart at some' ⊢
      by_cases empty : t.records = 0
      · rw [if_pos empty] at some'
        exact absurd rfl some'
      · rw [if_neg empty] at some' ⊢
        exact placed.bucket_lt some'
    rw [shtDrain_remaining (htWalk t) _ _ inside all enough, if_pos headed]
    rfl
  · obtain ⟨nonzero, empty⟩ := not_or.mp headed
    have start : htStart t = ⟨t.head, t.table t.head⟩ := if_neg nonzero
    have nothing : (htStart t).record = [] := by
      rw [start]
      exact not_not.mp empty
    obtain ⟨fuel, rfl⟩ := Nat.exists_eq_add_of_lt enough
    rw [shtDrain, htNext_end nothing, if_neg headed]

theorem shtClear_spec (holds : Holds sht t m) (owner : sht.delete = true) {fuel : Nat}
    (enough : (htWalk t).length < fuel) :
    shtClear fuel sht = some ⟨none, false,
      sht.destroyed ++ (if t.records = 0 ∨ t.table t.head ≠ [] then stored t else []),
      sht.accepted⟩ := by
  rw [shtClear, if_pos owner, holds.table, Option.bind_some,
    shtDrain_start holds.balanced.toPlaced enough]
  rfl

end Refine

end Mopher.StringTable
