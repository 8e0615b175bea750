import Mopher.Bdb.Driver
import Mathlib.Data.Option.Basic

/-!
# The Berkeley DB driver is the map

What the driver stores are the packed records of a map from key fields to records, and each
call does to the btree what `mapServe` does to the map.  The walk of the janitor is a walk of
`Lib/OrderedWalk` that removes what it meets.
-/

set_option autoImplicit false

namespace Mopher.Bdb

open Cleanup (vlistRecordGet)
open OrderedWalk (Behind Next Walk removeMet sweep)
open PartialRun (SameStep)

/-! ## Packed records -/

section Packed
variable {scheme : List FieldSpec}

theorem exists_data (small : scheme.length ≤ 64) {record : List Field} (of : OfScheme scheme record) :
    ∃ data, vpPack record = some ⟨data, (keyOf record).flatten⟩ ∧
      vpUnpack ⟨data, (keyOf record).flatten⟩ scheme = some record := by
  obtain ⟨⟨data, key⟩, packed, rfl, unpacked⟩ := vpPack_spec small of
  exact ⟨data, packed, unpacked⟩

theorem flatten_inj {a b : List Field} (ofA : OfScheme scheme a) (ofB : OfScheme scheme b)
    (same : (keyOf a).flatten = (keyOf b).flatten) : keyOf a = keyOf b :=
  keyOf_inj ofA ofB (congrArg (· ++ []) same)

/-- The database has the packed records of the map. -/
structure Holds (scheme : List FieldSpec) (content : Key → Option Bytes) (stored : Stored) : Prop where
  keyed : ∀ key record, stored key = some record → OfScheme scheme record ∧ keyOf record = key
  content_iff : ∀ key data, content key = some data ↔
    ∃ record, OfScheme scheme record ∧ vpPack record = some ⟨data, key.bytes⟩ ∧
      stored (keyOf record) = some record

variable {content : Key → Option Bytes} {stored : Stored}

theorem Holds.found (holds : Holds scheme content stored) (small : scheme.length ≤ 64) {key : List Bytes}
    {record : List Field} (there : stored key = some record) :
    ∃ data, content ⟨key.flatten⟩ = some data ∧ vpPack record = some ⟨data, key.flatten⟩ ∧
      vpUnpack ⟨data, key.flatten⟩ scheme = some record := by
  obtain ⟨of, rfl⟩ := holds.keyed _ _ there
  obtain ⟨data, packed, unpacked⟩ := exists_data small of
  exact ⟨data, (holds.content_iff _ _).mpr ⟨record, of, packed, there⟩, packed, unpacked⟩

theorem Holds.missing (holds : Holds scheme content stored) (small : scheme.length ≤ 64) {record : List Field}
    (of : OfScheme scheme record) (absent : stored (keyOf record) = none) :
    content ⟨(keyOf record).flatten⟩ = none := by
  by_contra there
  obtain ⟨data, found⟩ := Option.ne_none_iff_exists'.mp there
  obtain ⟨other, ofOther, packed, held⟩ := (holds.content_iff _ _).mp found
  obtain ⟨data', packed', _⟩ := exists_data small ofOther
  have keys : (keyOf record).flatten = (keyOf other).flatten :=
    congrArg Vp.key (Option.some.inj (packed.symm.trans packed'))
  rw [← flatten_inj of ofOther keys, absent] at held
  cases held

theorem Holds.empty (empty : ∀ key, content key = none) : Holds scheme content fun _ => none := by
  constructor
  · intro key record impossible
    cases impossible
  · intro key data
    rw [empty]
    refine iff_of_false (fun impossible => nomatch impossible) ?_
    rintro ⟨_, _, _, impossible⟩
    cases impossible

/-- Whatever is done to the record of one key is done to one entry. -/
theorem Holds.update (holds : Holds scheme content stored) (small : scheme.length ≤ 64) {record : List Field}
    (of : OfScheme scheme record) {data : Bytes} (packed : vpPack record = some ⟨data, (keyOf record).flatten⟩)
    (keep : Bool) :
    Holds scheme (Function.update content ⟨(keyOf record).flatten⟩ (if keep then some data else none))
      (Function.update stored (keyOf record) (if keep then some record else none)) := by
  constructor
  · intro key other there
    by_cases same : key = keyOf record
    · subst same
      cases keep with
      | false => simp at there
      | true =>
          simp only [if_true, Function.update_self, Option.some.injEq] at there
          subst there
          exact ⟨of, rfl⟩
    · rw [Function.update_of_ne same] at there
      exact holds.keyed key other there
  · intro key found
    by_cases same : key = ⟨(keyOf record).flatten⟩
    · subst same
      rw [Function.update_self]
      constructor
      · intro there
        cases keep with
        | false => cases there
        | true =>
            cases there
            exact ⟨record, of, packed, by rw [Function.update_self]; rfl⟩
      · rintro ⟨other, ofOther, packedOther, there⟩
        obtain ⟨_, packedOther', _⟩ := exists_data small ofOther
        have keys : (keyOf record).flatten = (keyOf other).flatten :=
          congrArg Vp.key (Option.some.inj (packedOther.symm.trans packedOther'))
        rw [← flatten_inj of ofOther keys, Function.update_self] at there
        cases keep with
        | false => cases there
        | true =>
            cases there
            exact congrArg some (congrArg Vp.data (Option.some.inj (packed.symm.trans packedOther)))
    · rw [Function.update_of_ne same, holds.content_iff]
      apply exists_congr
      intro other
      refine and_congr_right fun ofOther => and_congr_right fun packedOther => ?_
      have apart : keyOf other ≠ keyOf record := by
        intro keys
        obtain ⟨_, packedOther', _⟩ := exists_data small ofOther
        have bytes : key.bytes = (keyOf other).flatten :=
          congrArg Vp.key (Option.some.inj (packedOther.symm.trans packedOther'))
        exact same (Key.ext (bytes.trans (congrArg List.flatten keys)))
      rw [Function.update_of_ne apart]

end Packed

/-! ## Single calls -/

section Calls
variable {σ : Type} {db : Db185 σ} {view : View σ} {scheme : List FieldSpec} {s : σ} {stored : Stored}
  {record : List Field}

theorem bdbGet_spec (btree : Btree db view) (small : scheme.length ≤ 64)
    (holds : Holds scheme (view.content s) stored) (of : OfScheme scheme record) :
    bdbGet db scheme s record = (0, stored (keyOf record)) := by
  obtain ⟨_, packed, _⟩ := exists_data small of
  cases there : stored (keyOf record) with
  | none =>
      have missing := btree.get_missing s _ (holds.missing small of there)
      cases got : db.get s ⟨(keyOf record).flatten⟩ with
      | mk r data =>
          rw [got] at missing
          subst missing
          simp only [bdbGet, packed, got]
  | some held =>
      obtain ⟨data, found, _, unpacked⟩ := holds.found small there
      simp only [bdbGet, packed, btree.get_found s _ data found, unpacked]

theorem bdbSet_spec (btree : Btree db view) (small : scheme.length ≤ 64)
    (holds : Holds scheme (view.content s) stored) (of : OfScheme scheme record) :
    ∃ s', bdbSet db s record = (0, s') ∧
      Holds scheme (view.content s') (Function.update stored (keyOf record) (some record)) := by
  obtain ⟨data, packed, _⟩ := exists_data small of
  obtain ⟨zero, content⟩ := btree.put s ⟨(keyOf record).flatten⟩ data
  refine ⟨(db.put s ⟨(keyOf record).flatten⟩ data).2, ?_, ?_⟩
  · simp only [bdbSet, packed, zero, ne_eq, not_true_eq_false, if_false]
  · rw [content]
    exact holds.update small of packed true

/-- The database has nothing to delete, and the driver calls that an error. -/
theorem bdbDel_missing (btree : Btree db view) (small : scheme.length ≤ 64)
    (holds : Holds scheme (view.content s) stored) (of : OfScheme scheme record)
    (absent : stored (keyOf record) = none) :
    ∃ s', bdbDel db s record = (-1, s') ∧ view.content s' = view.content s := by
  obtain ⟨data, packed, _⟩ := exists_data small of
  obtain ⟨one, content⟩ := btree.del_missing s _ (holds.missing small of absent)
  refine ⟨(db.del s ⟨(keyOf record).flatten⟩).2, ?_, content⟩
  simp only [bdbDel, packed, one]
  rfl

theorem bdbDel_found (btree : Btree db view) (small : scheme.length ≤ 64)
    (holds : Holds scheme (view.content s) stored) (of : OfScheme scheme record)
    (there : stored (keyOf record) ≠ none) :
    ∃ s', bdbDel db s record = (0, s') ∧
      Holds scheme (view.content s') (Function.update stored (keyOf record) none) := by
  obtain ⟨data, packed, _⟩ := exists_data small of
  obtain ⟨held, found⟩ := Option.ne_none_iff_exists'.mp there
  obtain ⟨data', present, _⟩ := holds.found small found
  have known : view.content s ⟨(keyOf record).flatten⟩ ≠ none := by rw [present]; exact Option.some_ne_none _
  obtain ⟨zero, content, _⟩ := btree.del_found s _ known
  refine ⟨(db.del s ⟨(keyOf record).flatten⟩).2, ?_, ?_⟩
  · simp only [bdbDel, packed, zero, ne_eq, not_true_eq_false, if_false]
  · rw [content]
    exact holds.update small of packed false

/-- Each call on the database does what it does to the map. -/
theorem bdbServe_spec (btree : Btree db view) (small : scheme.length ≤ 64) (cfDbtFatalErrors : Bool)
    (holds : Holds scheme (view.content s) stored) {call : MemdbCall} (of : OfScheme scheme call.record) :
    SameStep (fun s stored => Holds scheme (view.content s) stored)
      (dbtServe (bdbDriver db scheme) cfDbtFatalErrors s call)
      (mapServe (ifMissing cfDbtFatalErrors) stored call) := by
  cases call with
  | get record =>
      have got : bdbGet db scheme s record = _ := bdbGet_spec btree small holds of
      have served : dbtServe (bdbDriver db scheme) cfDbtFatalErrors s (.get record) =
          some ((0, stored (keyOf record)), s) := by
        simp only [dbtServe, dbtDbGet, bdbDriver, got, unlessFatal]
        rfl
      rw [served]
      exact .some ⟨rfl, holds⟩
  | set record =>
      obtain ⟨s', put, holds'⟩ := bdbSet_spec btree small holds of
      simp only [MemdbCall.record] at put holds'
      have served : dbtServe (bdbDriver db scheme) cfDbtFatalErrors s (.set record) = some ((0, none), s') := by
        simp only [dbtServe, dbtDbSet, bdbDriver, put, unlessFatal]
        rfl
      rw [served]
      exact .some ⟨rfl, holds'⟩
  | del record =>
      simp only [mapServe]
      by_cases absent : stored (keyOf record) = none
      · obtain ⟨s', deleted, content⟩ := bdbDel_missing btree small holds of absent
        simp only [MemdbCall.record] at deleted
        rw [if_pos absent]
        cases cfDbtFatalErrors with
        | true =>
            have dies : dbtServe (bdbDriver db scheme) true s (.del record) = none := by
              simp only [dbtServe, dbtDbDel, bdbDriver, deleted, unlessFatal]
              rfl
            rw [dies]
            exact .none
        | false =>
            have served : dbtServe (bdbDriver db scheme) false s (.del record) = some ((-1, none), s') := by
              simp only [dbtServe, dbtDbDel, bdbDriver, deleted, unlessFatal]
              rfl
            have holds' : Holds scheme (view.content s') stored := by rw [content]; exact holds
            rw [served]
            exact .some ⟨rfl, holds'⟩
      · obtain ⟨s', deleted, holds'⟩ := bdbDel_found btree small holds of absent
        simp only [MemdbCall.record] at deleted holds'
        have served : dbtServe (bdbDriver db scheme) cfDbtFatalErrors s (.del record) = some ((0, none), s') := by
          simp only [dbtServe, dbtDbDel, bdbDriver, deleted, unlessFatal]
          rfl
        rw [if_neg absent, served]
        exact .some ⟨rfl, holds'⟩

end Calls

/-! ## The janitor -/

section Janitor
variable {σ : Type} {db : Db185 σ} {view : View σ}

/-- The record in an entry has expired. -/
def gone (dbt : Dbt σ) (key : Key) (data : Bytes) : Bool :=
  (vpUnpack ⟨data, key.bytes⟩ dbt.scheme).any (expired dbt.expireField dbt.cleanupSchedule)

/-- The record in an entry has a time in its expire field. -/
def Timed (dbt : Dbt σ) (entry : Key × Bytes) : Prop :=
  ∀ record, vpUnpack ⟨entry.2, entry.1.bytes⟩ dbt.scheme = some record → (expireOf dbt.expireField record).isSome = true

/-- The entry is a packed record. -/
def IsPacked (scheme : List FieldSpec) (entry : Key × Bytes) : Prop :=
  ∃ record, vpPack record = some ⟨entry.2, entry.1.bytes⟩ ∧ vpUnpack ⟨entry.2, entry.1.bytes⟩ scheme = some record

/-- What the janitor does with the record at the cursor: it removes the entry if it has
expired, and it dies if there is no time. -/
theorem dbtJanitorValidate_spec (btree : Btree db view) (cfDbtFatalErrors : Bool) (dbt : Dbt σ)
    {key : Key} {data : Bytes} {record : List Field} (packed : vpPack record = some ⟨data, key.bytes⟩)
    (unpacked : vpUnpack ⟨data, key.bytes⟩ dbt.scheme = some record)
    (found : view.content dbt.handle key = some data) :
    (expireOf dbt.expireField record = none → dbtJanitorValidate db cfDbtFatalErrors dbt record = none) ∧
      ((expireOf dbt.expireField record).isSome = true → ∃ s,
        dbtJanitorValidate db cfDbtFatalErrors dbt record = some (0, { dbt with
          handle := s, cleanupDeleted := dbt.cleanupDeleted + (if gone dbt key data then 1 else 0) }) ∧
        view.content s = removeMet (gone dbt) (view.content dbt.handle) (key, data) ∧
        view.cursor s = view.cursor dbt.handle) := by
  constructor
  · intro timeless
    simp only [dbtJanitorValidate, dbtCommonValidate, timeless, Option.map_none]
  · intro timed
    obtain ⟨expire, read⟩ := Option.isSome_iff_exists.mp timed
    have isGone : gone dbt key data = decide (expire < dbt.cleanupSchedule.toInt) := by
      simp only [gone, unpacked, Option.any_some, expired, read]
    by_cases old : expire < dbt.cleanupSchedule.toInt
    · have known : view.content dbt.handle key ≠ none := by rw [found]; exact Option.some_ne_none _
      obtain ⟨zero, content, cursor⟩ := btree.del_found dbt.handle key known
      have deleted : bdbDel db dbt.handle record = (0, (db.del dbt.handle key).2) := by
        simp only [bdbDel, packed, zero, ne_eq, not_true_eq_false, if_false]
      rw [decide_eq_true old] at isGone
      refine ⟨(db.del dbt.handle key).2, ?_, ?_, cursor⟩
      · simp only [dbtJanitorValidate, dbtCommonValidate, read, Option.map_some, gt_iff_lt, if_pos old, dbtDbDel,
          bdbDriver, deleted, unlessFatal, isGone]
        rfl
      · rw [content, removeMet]
        simp only [isGone, if_true]
    · rw [decide_eq_false old] at isGone
      refine ⟨dbt.handle, ?_, ?_, rfl⟩
      · simp only [dbtJanitorValidate, dbtCommonValidate, read, Option.map_some, gt_iff_lt, if_neg old, isGone]
        simp
      · rw [removeMet]
        simp only [isGone, Bool.false_eq_true, if_false]

/-- The callback gets the record under the cursor, and the walk goes on whatever it returns. -/
theorem bdbWalkLoop_met (callback : Dbt σ → List Field → Option (Int × Dbt σ)) {dbt : Dbt σ} {flag : SeqFlag}
    {key : Key} {data : Bytes} {s : σ} {record : List Field} (sought : db.seq dbt.handle flag = ((0, key, data), s))
    (unpacks : vpUnpack ⟨data, key.bytes⟩ dbt.scheme = some record) (fuel : Nat) :
    bdbWalkLoop db callback (fuel + 1) flag dbt =
      (callback { dbt with handle := s } record).bind fun validated =>
        bdbWalkLoop db callback fuel .next validated.2 := by
  simp only [bdbWalkLoop, sought, unpacks]

/-- The walk ends where there is no next record. -/
theorem bdbWalkLoop_ended {callback : Dbt σ → List Field → Option (Int × Dbt σ)} {dbt : Dbt σ} {flag : SeqFlag}
    (one : (db.seq dbt.handle flag).1.1 = 1) (fuel : Nat) :
    bdbWalkLoop db callback (fuel + 1) flag dbt = some (0, { dbt with handle := (db.seq dbt.handle flag).2 }) := by
  rcases sought : db.seq dbt.handle flag with ⟨⟨r, key, data⟩, s⟩
  rw [sought] at one
  subst one
  simp only [bdbWalkLoop, sought]
  simp

/-- A record that is removed is counted. -/
theorem deleted_cons (dbt : Dbt σ) (key : Key) (data : Bytes) (rest : List (Key × Bytes)) :
    dbt.cleanupDeleted + (if gone dbt key data then 1 else 0) +
        (rest.countP fun entry => gone dbt entry.1 entry.2 : Nat) =
      dbt.cleanupDeleted + (((key, data) :: rest).countP fun entry => gone dbt entry.1 entry.2 : Nat) := by
  rw [List.countP_cons]
  cases gone dbt key data <;> simp [add_assoc, add_comm]

/-- The walk of the janitor removes what has expired behind the cursor and counts it; it dies
if some record there has no time. -/
theorem bdbWalkLoop_spec (btree : Btree db view) (cfDbtFatalErrors : Bool) (entries : List (Key × Bytes)) :
    ∀ (dbt : Dbt σ) (flag : SeqFlag), Walk (view.content dbt.handle) (view.start dbt.handle flag) entries →
    (∀ entry ∈ entries, IsPacked dbt.scheme entry) →
    ((∀ entry ∈ entries, Timed dbt entry) → ∃ s,
      view.content s = entries.foldl (removeMet (gone dbt)) (view.content dbt.handle) ∧
      ∀ fuel, entries.length < fuel →
        bdbWalkLoop db (dbtJanitorValidate db cfDbtFatalErrors) fuel flag dbt = some (0, { dbt with
          handle := s, cleanupDeleted := dbt.cleanupDeleted +
            (entries.countP fun entry => gone dbt entry.1 entry.2 : Nat) })) ∧
    ((¬ ∀ entry ∈ entries, Timed dbt entry) →
      ∀ fuel, bdbWalkLoop db (dbtJanitorValidate db cfDbtFatalErrors) fuel flag dbt = none) := by
  induction entries with
  | nil =>
      intro dbt flag walk _
      cases walk with
      | ended nothing =>
      refine ⟨fun _ => ?_, fun some' => absurd (fun _ inside => absurd inside List.not_mem_nil) some'⟩
      obtain ⟨one, content⟩ := btree.seq_ended dbt.handle flag nothing
      refine ⟨(db.seq dbt.handle flag).2, content, ?_⟩
      intro fuel enough
      obtain ⟨fuel, rfl⟩ := Nat.exists_eq_add_one.mpr enough
      rw [bdbWalkLoop_ended one]
      simp
  | cons entry rest ih =>
      intro dbt flag walk packed
      obtain ⟨key, data⟩ := entry
      cases walk with
      | met next later =>
      obtain ⟨answer, content, cursor⟩ := btree.seq_found dbt.handle flag key data next
      obtain ⟨record, packs, unpacks⟩ := packed (key, data) List.mem_cons_self
      rcases sought : db.seq dbt.handle flag with ⟨found, s⟩
      rw [sought] at answer content cursor
      subst answer
      have step := bdbWalkLoop_met (dbtJanitorValidate db cfDbtFatalErrors) sought unpacks
      have here : view.content s key = some data := by rw [content]; exact next.stored
      obtain ⟨dies, lives⟩ := dbtJanitorValidate_spec btree cfDbtFatalErrors { dbt with handle := s } packs unpacks here
      cases timed : expireOf dbt.expireField record with
      | none =>
          have timeless : ¬ Timed dbt (key, data) := by
            intro all
            have some' := all record unpacks
            rw [timed] at some'
            cases some'
          refine ⟨fun all => absurd (all _ List.mem_cons_self) timeless, fun _ fuel => ?_⟩
          cases fuel with
          | zero => rfl
          | succ fuel => rw [step, dies timed, Option.bind_none]
      | some expire =>
          obtain ⟨s', called, content', cursor'⟩ := lives (Option.isSome_iff_exists.mpr ⟨expire, timed⟩)
          have isTimed : Timed dbt (key, data) := by
            intro other unpacks'
            obtain rfl : record = other := Option.some.inj (unpacks.symm.trans unpacks')
            exact Option.isSome_iff_exists.mpr ⟨expire, timed⟩
          have content'' : view.content s' = removeMet (gone dbt) (view.content dbt.handle) (key, data) := by
            rw [content', content]
            rfl
          -- what is left of the walk goes on behind the record
          have walk' : Walk (view.content s') (view.start s' .next) rest := by
            have at_ : view.start s' .next = some key := cursor'.trans cursor
            rw [at_, content'']
            exact later.congr fun other behind => OrderedWalk.removeMet_behind behind
          obtain ⟨ends, dies'⟩ := ih { dbt with handle := s', cleanupDeleted :=
            dbt.cleanupDeleted + (if gone dbt key data then 1 else 0) } .next walk'
            fun entry inside => packed entry (List.mem_cons_of_mem _ inside)
          constructor
          · intro all
            obtain ⟨last, swept, ran⟩ := ends fun entry inside => all entry (List.mem_cons_of_mem _ inside)
            refine ⟨last, ?_, ?_⟩
            · rw [List.foldl_cons, ← content'']
              exact swept
            · intro fuel enough
              obtain ⟨fuel, rfl⟩ := Nat.exists_eq_add_one.mpr (Nat.zero_lt_of_lt enough)
              have rest' : rest.length < fuel := by simpa using enough
              rw [step, called, Option.bind_some]
              refine (ran fuel rest').trans ?_
              rw [← deleted_cons]
              rfl
          · intro some' fuel
            cases fuel with
            | zero => rfl
            | succ fuel =>
                have later' : ¬ ∀ entry ∈ rest, Timed dbt entry := by
                  intro all
                  apply some'
                  intro entry inside
                  rcases List.mem_cons.mp inside with rfl | inside
                  · exact isTimed
                  · exact all entry inside
                rw [step, called, Option.bind_some]
                exact dies' later' fuel

/-- A walk without its expired records leaves those of the map that have not expired. -/
theorem Holds.swept {dbt : Dbt σ} {content : Key → Option Bytes} {stored : Stored}
    (holds : Holds dbt.scheme content stored) (small : dbt.scheme.length ≤ 64) :
    Holds dbt.scheme (sweep (gone dbt) content) fun key =>
      (stored key).filter fun record => !expired dbt.expireField dbt.cleanupSchedule record := by
  constructor
  · intro key record there
    exact holds.keyed key record (Option.filter_eq_some_iff.mp there).1
  · intro key data
    rw [sweep, Option.filter_eq_some_iff, holds.content_iff]
    constructor
    · rintro ⟨⟨record, of, packed, there⟩, stays⟩
      obtain ⟨data', packed', unpacked⟩ := exists_data small of
      obtain rfl : data = data' := congrArg Vp.data (Option.some.inj (packed.symm.trans packed'))
      have bytes : key.bytes = (keyOf record).flatten :=
        congrArg Vp.key (Option.some.inj (packed.symm.trans packed'))
      rw [gone, bytes, unpacked, Option.any_some] at stays
      exact ⟨record, of, packed, Option.filter_eq_some_iff.mpr ⟨there, stays⟩⟩
    · rintro ⟨record, of, packed, there⟩
      obtain ⟨there, stays⟩ := Option.filter_eq_some_iff.mp there
      obtain ⟨data', packed', unpacked⟩ := exists_data small of
      obtain rfl : data = data' := congrArg Vp.data (Option.some.inj (packed.symm.trans packed'))
      have bytes : key.bytes = (keyOf record).flatten :=
        congrArg Vp.key (Option.some.inj (packed.symm.trans packed'))
      refine ⟨⟨record, of, packed, there⟩, ?_⟩
      rw [gone, bytes, unpacked, Option.any_some]
      exact stays

/-- As many entries have expired as records. -/
theorem Holds.ncard_gone {dbt : Dbt σ} {content : Key → Option Bytes} {stored : Stored}
    (holds : Holds dbt.scheme content stored) (small : dbt.scheme.length ≤ 64) :
    {key | ∃ data, content key = some data ∧ gone dbt key data = true}.ncard =
      {key | ∃ record, stored key = some record ∧
        expired dbt.expireField dbt.cleanupSchedule record = true}.ncard := by
  have image : {key | ∃ data, content key = some data ∧ gone dbt key data = true} =
      (fun key : List Bytes => (⟨key.flatten⟩ : Key)) '' {key | ∃ record, stored key = some record ∧
        expired dbt.expireField dbt.cleanupSchedule record = true} := by
    ext key
    constructor
    · rintro ⟨data, found, old⟩
      obtain ⟨record, of, packed, there⟩ := (holds.content_iff key data).mp found
      obtain ⟨data', packed', unpacked⟩ := exists_data small of
      have same := Option.some.inj (packed.symm.trans packed')
      obtain rfl : data = data' := congrArg Vp.data same
      have bytes : key.bytes = (keyOf record).flatten := congrArg Vp.key same
      rw [gone, bytes, unpacked, Option.any_some] at old
      exact ⟨keyOf record, ⟨record, there, old⟩, Key.ext bytes.symm⟩
    · rintro ⟨key, ⟨record, there, old⟩, rfl⟩
      obtain ⟨data, found, _, unpacked⟩ := holds.found small there
      refine ⟨data, found, ?_⟩
      rw [gone, unpacked, Option.any_some]
      exact old
  rw [image]
  apply Set.InjOn.ncard_image
  rintro a ⟨record, there, _⟩ b ⟨other, there', _⟩ same
  obtain ⟨of, rfl⟩ := holds.keyed _ _ there
  obtain ⟨of', rfl⟩ := holds.keyed _ _ there'
  exact flatten_inj of of' (Key.ext_iff.mp same)

/-- The table in front of a round of the janitor. -/
def Dbt.atRound (dbt : Dbt σ) (schedule : BitVec 32) : Dbt σ :=
  { dbt with cleanupSchedule := schedule, cleanupDeleted := 0 }

/-- The driver and the map agree, and the table is still the same. -/
structure Agrees (view : View σ) (scheme : List FieldSpec) (expireField : Bytes) (dbt : Dbt σ)
    (stored : Stored) : Prop where
  sameScheme : dbt.scheme = scheme
  sameField : dbt.expireField = expireField
  holds : Holds scheme (view.content dbt.handle) stored

/-- The janitor does to the database what it does to the map, if it may take long enough. -/
theorem cleanup_spec (btree : Btree db view) (cfDbtFatalErrors : Bool) {scheme : List FieldSpec}
    {expireField : Bytes} (small : scheme.length ≤ 64) {dbt : Dbt σ} {stored : Stored}
    (agrees : Agrees view scheme expireField dbt stored) (schedule : BitVec 32) :
    ∃ enough result, (∀ fuel, enough ≤ fuel →
      bdbServe db cfDbtFatalErrors fuel dbt (.cleanup schedule) = result) ∧
      SameStep (Agrees view scheme expireField) result (mapCleanup expireField schedule stored) := by
  obtain ⟨rfl, rfl, holds⟩ := agrees
  obtain ⟨entries, walk⟩ := OrderedWalk.exists_walk (btree.finite dbt.handle) none
  have packed : ∀ entry ∈ entries, IsPacked dbt.scheme entry := by
    rintro ⟨key, data⟩ inside
    obtain ⟨record, of, packed, _⟩ := (holds.content_iff key data).mp ((walk.mem_iff key data).mp inside).2
    obtain ⟨data', packed', unpacked⟩ := exists_data small of
    obtain ⟨rfl, bytes⟩ := Vp.mk.inj (Option.some.inj (packed.symm.trans packed'))
    exact ⟨record, packed, by rw [bytes]; exact unpacked⟩
  have timed : (∀ entry ∈ entries, Timed dbt entry) ↔
      ∀ key record, stored key = some record → (expireOf dbt.expireField record).isSome = true := by
    constructor
    · intro all key record there
      obtain ⟨data, found, _, unpacked⟩ := holds.found small there
      exact all _ ((walk.mem_iff _ data).mpr ⟨OrderedWalk.behind_none _, found⟩) record unpacked
    · rintro all ⟨key, data⟩ inside record unpacked
      obtain ⟨other, of, packed, there⟩ := (holds.content_iff key data).mp ((walk.mem_iff key data).mp inside).2
      obtain ⟨data', packed', unpacked'⟩ := exists_data small of
      obtain ⟨rfl, bytes⟩ := Vp.mk.inj (Option.some.inj (packed.symm.trans packed'))
      simp only at unpacked
      rw [bytes, unpacked'] at unpacked
      cases unpacked
      exact all _ _ there
  obtain ⟨ends, dies⟩ := bdbWalkLoop_spec btree cfDbtFatalErrors entries (dbt.atRound schedule) .first walk packed
  by_cases all : ∀ entry ∈ entries, Timed dbt entry
  · obtain ⟨s, content, ran⟩ := ends all
    have count := @Holds.ncard_gone σ (dbt.atRound schedule) _ _ holds small
    rw [← walk.countP_eq] at count
    refine ⟨entries.length + 1, some (((entries.countP fun entry => gone (dbt.atRound schedule) entry.1 entry.2 : Nat), none),
      { dbt.atRound schedule with
        cleanupDeleted := (entries.countP fun entry => gone (dbt.atRound schedule) entry.1 entry.2 : Nat)
        handle := (db.sync s).2 }), ?_, ?_⟩
    · intro fuel enough
      have round : ({ dbt with cleanupSchedule := schedule, cleanupDeleted := 0 } : Dbt σ) = dbt.atRound schedule := rfl
      have zero : (dbt.atRound schedule).cleanupDeleted = 0 := rfl
      simp only [bdbServe, dbtJanitorCleanupWalk, dbtDbWalk, round, ran fuel enough, unlessFatal, zero, zero_add]
      rfl
    · rw [mapCleanup, if_pos (timed.mp all)]
      refine .some ⟨?_, rfl, rfl, ?_⟩
      · rw [count]
        rfl
      · have left : entries.foldl (removeMet (gone (dbt.atRound schedule))) (view.content dbt.handle) = _ := walk.swept
        rw [btree.sync, content]
        exact left ▸ @Holds.swept σ (dbt.atRound schedule) _ _ holds small
  · refine ⟨0, none, fun fuel _ => ?_, ?_⟩
    · have round : ({ dbt with cleanupSchedule := schedule, cleanupDeleted := 0 } : Dbt σ) = dbt.atRound schedule := rfl
      simp only [bdbServe, dbtJanitorCleanupWalk, dbtDbWalk, round, dies all fuel]
      rfl
    · rw [mapCleanup, if_neg fun all' => all (timed.mpr all')]
      exact .none

/-- A call of the daemon leaves the table as it was, but for its records. -/
theorem serve_spec (btree : Btree db view) (cfDbtFatalErrors : Bool) {scheme : List FieldSpec}
    {expireField : Bytes} (small : scheme.length ≤ 64) {dbt : Dbt σ} {stored : Stored}
    (agrees : Agrees view scheme expireField dbt stored) {call : MemdbCall} (of : OfScheme scheme call.record)
    (fuel : Nat) :
    SameStep (Agrees view scheme expireField) (bdbServe db cfDbtFatalErrors fuel dbt (.serve call))
      (mapServe (ifMissing cfDbtFatalErrors) stored call) := by
  obtain ⟨rfl, rfl, holds⟩ := agrees
  have served := bdbServe_spec btree small cfDbtFatalErrors holds of
  rw [bdbServe]
  generalize dbtServe (bdbDriver db dbt.scheme) cfDbtFatalErrors dbt.handle call = result at served
  generalize mapServe (ifMissing cfDbtFatalErrors) stored call = expected at served
  cases served with
  | none => exact .none
  | some same => exact .some ⟨same.1, rfl, rfl, same.2⟩

theorem run_spec (btree : Btree db view) (cfDbtFatalErrors : Bool) {scheme : List FieldSpec}
    {expireField : Bytes} (small : scheme.length ≤ 64) (calls : List BdbCall) :
    ∀ (dbt : Dbt σ) (stored : Stored), Agrees view scheme expireField dbt stored →
    (∀ call ∈ calls, call.OfScheme scheme) → ∃ enough, ∀ fuel, enough ≤ fuel →
      (PartialRun.answers (bdbServe db cfDbtFatalErrors fuel) dbt calls).1 =
          (PartialRun.answers (bdbSpec cfDbtFatalErrors expireField) stored calls).1 ∧
        Option.Rel (Agrees view scheme expireField)
          (PartialRun.answers (bdbServe db cfDbtFatalErrors fuel) dbt calls).2
          (PartialRun.answers (bdbSpec cfDbtFatalErrors expireField) stored calls).2 := by
  induction calls with
  | nil =>
      intro dbt stored agrees _
      exact ⟨0, fun _ _ => ⟨rfl, .some agrees⟩⟩
  | cons call rest ih =>
      intro dbt stored agrees of
      have step : ∃ enough result, (∀ fuel, enough ≤ fuel → bdbServe db cfDbtFatalErrors fuel dbt call = result) ∧
          SameStep (Agrees view scheme expireField) result (bdbSpec cfDbtFatalErrors expireField stored call) := by
        cases call with
        | serve call =>
            have ofCall : OfScheme scheme call.record := of _ List.mem_cons_self
            exact ⟨0, _, fun fuel _ => rfl, serve_spec btree cfDbtFatalErrors small agrees ofCall 0⟩
        | cleanup schedule => exact cleanup_spec btree cfDbtFatalErrors small agrees schedule
      obtain ⟨enough, result, stepped, same⟩ := step
      generalize spec : bdbSpec cfDbtFatalErrors expireField stored call = expected at same
      cases same with
      | none =>
          refine ⟨enough, fun fuel more => ?_⟩
          rw [PartialRun.answers_stuck (stepped fuel more), PartialRun.answers_stuck spec]
          exact ⟨rfl, .none⟩
      | @some x y same =>
          obtain ⟨answer, next⟩ := x
          obtain ⟨answer', next'⟩ := y
          obtain ⟨rfl, agrees'⟩ := same
          obtain ⟨enough', ran⟩ := ih next next' agrees' fun other inside => of other (List.mem_cons_of_mem _ inside)
          refine ⟨max enough enough', fun fuel more => ?_⟩
          obtain ⟨answers, last⟩ := ran fuel (le_of_max_le_right more)
          rw [PartialRun.answers_cons (stepped fuel (le_of_max_le_left more)), PartialRun.answers_cons spec]
          exact ⟨congrArg (List.cons answer) answers, last⟩

end Janitor

/-- A list of entries, and a cursor. -/
structure ListDb where
  entries : List (Key × Bytes)
  cursor : Option Key

def ListDb.find (s : ListDb) (key : Key) : Option Bytes :=
  (s.entries.find? fun entry => decide (entry.1 = key)).map Prod.snd

def ListDb.without (s : ListDb) (key : Key) : List (Key × Bytes) :=
  s.entries.filter fun entry => decide (entry.1 ≠ key)

def listView : View ListDb := ⟨ListDb.find, ListDb.cursor⟩

/-- The keys behind the cursor. -/
def ListDb.keysBehind (s : ListDb) (cursor : Option Key) : List Key :=
  (s.entries.map Prod.fst).filter fun key => cursor.all fun last => decide (last < key)

def listDb : Db185 ListDb where
  get s key := (s.find key).elim (1, []) fun data => (0, data)
  put s key data := (0, { s with entries := (key, data) :: s.without key })
  del s key := (s.find key).elim (1, s) fun _ => (0, { s with entries := s.without key })
  seq s flag :=
    match (s.keysBehind (listView.start s flag)).argmin id with
    | none => ((1, ⟨[]⟩, []), s)
    | some key => ((0, key, (s.find key).getD []), { s with cursor := some key })
  sync s := (0, s)

section ListDb
variable (s : ListDb) (key : Key)

theorem find_put (data : Bytes) :
    ListDb.find { s with entries := (key, data) :: s.without key } = Function.update s.find key (some data) := by
  funext other
  by_cases same : other = key
  · subst same
    rw [Function.update_self]
    simp [ListDb.find]
  · rw [Function.update_of_ne same]
    have apart : key ≠ other := fun eq => same eq.symm
    simp only [ListDb.find, ListDb.without, List.find?_cons, decide_eq_false apart, List.find?_filter]
    congr 2
    funext entry
    by_cases found : entry.1 = other
    · simp [found, same]
    · simp [found]

theorem find_without : ListDb.find { s with entries := s.without key } = Function.update s.find key none := by
  funext other
  by_cases same : other = key
  · subst same
    rw [Function.update_self]
    simp [ListDb.find, ListDb.without, List.find?_filter]
  · rw [Function.update_of_ne same]
    simp only [ListDb.find, ListDb.without, List.find?_filter]
    congr 2
    funext entry
    by_cases found : entry.1 = other
    · simp [found, same]
    · simp [found]

theorem find_ne_none : s.find key ≠ none ↔ key ∈ s.entries.map Prod.fst := by
  simp only [ListDb.find, ne_eq, Option.map_eq_none_iff, List.find?_eq_none, List.mem_map]
  push Not
  simp

theorem mem_keysBehind (cursor : Option Key) :
    key ∈ s.keysBehind cursor ↔ s.find key ≠ none ∧ Behind cursor key := by
  rw [ListDb.keysBehind, List.mem_filter, find_ne_none]
  refine and_congr_right fun _ => ?_
  cases cursor with
  | none => exact iff_of_true rfl (OrderedWalk.behind_none key)
  | some last => rw [OrderedWalk.behind_some, Option.all_some, decide_eq_true_eq]

/-- The list behaves as a btree. -/
theorem listDb_btree : Btree listDb listView where
  finite s := by
    refine (s.entries.map Prod.fst).toFinset.finite_toSet.subset fun key stored => ?_
    simpa using (find_ne_none s key).mp stored
  get_found s key data found := by
    have there : s.find key = some data := found
    simp only [listDb, there, Option.elim_some]
  get_missing s key missing := by
    have absent : s.find key = none := missing
    simp only [listDb, absent, Option.elim_none]
  put s key data := ⟨rfl, find_put s key data⟩
  del_found s key found := by
    obtain ⟨data, there⟩ : ∃ data, s.find key = some data := Option.ne_none_iff_exists'.mp found
    simp only [listDb, there, Option.elim_some]
    exact ⟨trivial, find_without s key, rfl⟩
  del_missing s key missing := by
    have absent : s.find key = none := missing
    simp only [listDb, absent, Option.elim_none]
    exact ⟨trivial, trivial⟩
  seq_found s flag key data next := by
    have stored : s.find key = some data := next.stored
    have inside : key ∈ s.keysBehind (listView.start s flag) := by
      rw [mem_keysBehind, stored]
      exact ⟨Option.some_ne_none data, next.behind⟩
    have first : (s.keysBehind (listView.start s flag)).argmin id = some key := by
      cases least : (s.keysBehind (listView.start s flag)).argmin id with
      | none =>
          rw [List.argmin_eq_none] at least
          rw [least] at inside
          cases inside
      | some other =>
          obtain ⟨known, behind⟩ := (mem_keysBehind s other _).mp (List.argmin_mem least)
          exact congrArg some (le_antisymm (List.le_of_mem_argmin inside least) (next.least other known behind))
    simp only [listDb, first, stored, Option.getD_some]
    exact ⟨trivial, rfl, rfl⟩
  seq_ended s flag nothing := by
    have empty : s.keysBehind (listView.start s flag) = [] := by
      rw [List.eq_nil_iff_forall_not_mem]
      intro key inside
      obtain ⟨known, behind⟩ := (mem_keysBehind s key _).mp inside
      exact known (nothing key behind)
    simp only [listDb, empty, List.argmin_nil]
    exact ⟨trivial, trivial⟩
  sync s := rfl

end ListDb

/-- Three hits, the second one of which is deleted, and a round of the janitor at 5. -/
def sampleCalls : List BdbCall :=
  [.serve (.set (sampleRecord ⟨[120], by decide⟩ (some 3))), .serve (.set (sampleRecord ⟨[121], by decide⟩ (some 4))),
    .serve (.set (sampleRecord ⟨[120, 121], by decide⟩ (some 7))), .serve (.del (sampleRecord ⟨[121], by decide⟩ none)),
    .cleanup 5, .serve (.get (sampleRecord ⟨[120, 121], by decide⟩ none))]

end Mopher.Bdb
