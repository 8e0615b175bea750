import Mopher.Memdb.Cleanup
import Mopher.Lib.OrderedWalk
import Mopher.Lib.PartialRun

/-!
# The Berkeley DB driver

Model of `bdb.c` and of the calls of `dbt.c` in front of a driver, over any database that
behaves as Berkeley DB 1.85 is documented to: a btree of keys and data, and a cursor.  The
driver is the map of `Memdb/Store`, but for the deletion of what is not there; and the
janitor, which deletes from the btree it walks through, leaves exactly what has not
expired.
-/

set_option autoImplicit false

namespace Mopher.Bdb

open Cleanup (vlistRecordGet)
open OrderedWalk (Behind Next Walk removeMet sweep)

/-! ## The database -/

/-- The `DBT` of a key. -/
@[ext] structure Key where
  bytes : Bytes

theorem rank_injective : Function.Injective fun key : Key => key.bytes.map UInt8.toNat := by
  intro a b same
  have inj : Function.Injective UInt8.toNat := fun _ _ eq => UInt8.toNat_inj.mp eq
  exact Key.ext (List.map_injective_iff.mpr inj same)

/-- The order of a btree without a comparison of its own: byte by byte, and the shorter key
first. -/
instance : LinearOrder Key := LinearOrder.lift' (fun key => key.bytes.map UInt8.toNat) rank_injective

/-- `R_FIRST` and `R_NEXT`. -/
inductive SeqFlag where
  | first
  | next

/-- The functions in a `DB`; they return 0, 1 for a key that is not there, or -1. -/
structure Db185 (σ : Type) where
  get : σ → Key → Int × Bytes
  put : σ → Key → Bytes → Int × σ
  del : σ → Key → Int × σ
  seq : σ → SeqFlag → (Int × Key × Bytes) × σ
  sync : σ → Int × σ

/-- What a database holds, and where its cursor is. -/
structure View (σ : Type) where
  content : σ → Key → Option Bytes
  cursor : σ → Option Key

def View.start {σ : Type} (view : View σ) (s : σ) : SeqFlag → Option Key
  | .first => none
  | .next => view.cursor s

/-- What is documented of a btree. -/
structure Btree {σ : Type} (db : Db185 σ) (view : View σ) : Prop where
  finite : ∀ s, {key | view.content s key ≠ none}.Finite
  get_found : ∀ s key data, view.content s key = some data → db.get s key = (0, data)
  get_missing : ∀ s key, view.content s key = none → (db.get s key).1 = 1
  put : ∀ s key data, (db.put s key data).1 = 0 ∧
    view.content (db.put s key data).2 = Function.update (view.content s) key (some data)
  del_found : ∀ s key, view.content s key ≠ none → (db.del s key).1 = 0 ∧
    view.content (db.del s key).2 = Function.update (view.content s) key none ∧
    view.cursor (db.del s key).2 = view.cursor s
  del_missing : ∀ s key, view.content s key = none → (db.del s key).1 = 1 ∧
    view.content (db.del s key).2 = view.content s
  seq_found : ∀ s flag key data, Next (view.content s) (view.start s flag) key data →
    (db.seq s flag).1 = (0, key, data) ∧ view.content (db.seq s flag).2 = view.content s ∧
      view.cursor (db.seq s flag).2 = some key
  seq_ended : ∀ s flag, (∀ key, Behind (view.start s flag) key → view.content s key = none) →
    (db.seq s flag).1.1 = 1 ∧ view.content (db.seq s flag).2 = view.content s
  sync : ∀ s, view.content (db.sync s).2 = view.content s

/-! ## The calls of `dbt.c` -/

/-- The functions of a `dbt_driver_t` for single records. -/
structure DbtDriver (σ : Type) where
  ddGet : σ → List Field → Int × Option (List Field)
  ddSet : σ → List Field → Option (Int × σ)
  ddDel : σ → List Field → Int × σ

section Dbt
variable {σ : Type} (driver : DbtDriver σ) (cfDbtFatalErrors : Bool)

/-- There is no result where the daemon dies of a `fatal database error`. -/
def unlessFatal {α : Type} (r : Int) (result : α) : Option α :=
  if r < 0 && cfDbtFatalErrors then none else some result

def dbtDbGet (s : σ) (record : List Field) : Option (Int × Option (List Field)) :=
  let (r, result) := driver.ddGet s record
  unlessFatal cfDbtFatalErrors r (r, result)

/-- `dbt_db_set`, without the other servers. -/
def dbtDbSet (s : σ) (record : List Field) : Option (Int × σ) :=
  (driver.ddSet s record).bind fun (r, s) => unlessFatal cfDbtFatalErrors r (r, s)

def dbtDbDel (s : σ) (record : List Field) : Option (Int × σ) :=
  let (r, s) := driver.ddDel s record
  unlessFatal cfDbtFatalErrors r (r, s)

/-- What a call returns, and the record that it got. -/
abbrev Answer := Int × Option (List Field)

def dbtServe (s : σ) : MemdbCall → Option (Answer × σ)
  | .get record => (dbtDbGet driver cfDbtFatalErrors s record).map fun answer => (answer, s)
  | .set record => (dbtDbSet driver cfDbtFatalErrors s record).map fun (r, s) => ((r, none), s)
  | .del record => (dbtDbDel driver cfDbtFatalErrors s record).map fun (r, s) => ((r, none), s)

end Dbt

/-- The functions of `memdb.c`. -/
def memdbDriver (beyond : Vp → Nat → UInt8) (depth : Nat) (scheme : List FieldSpec) : DbtDriver (Ht Vp) where
  ddGet ht record :=
    match memdbGet beyond scheme ht record with
    | none => (-1, none)
    | some result => (0, result)
  ddSet ht record := (memdbSet beyond depth ht record).map fun (done, ht) => (if done then 0 else -1, ht)
  ddDel ht record :=
    let (done, ht) := memdbDel beyond ht record
    (if done then 0 else -1, ht)

/-! ## The driver -/

section Driver
variable {σ : Type} (db : Db185 σ) (scheme : List FieldSpec)

def bdbGet (s : σ) (record : List Field) : Int × Option (List Field) :=
  match vpPack record with
  | none => (-1, none)
  | some lookup =>
      match db.get s ⟨lookup.key⟩ with
      | (0, data) =>
          match vpUnpack ⟨data, lookup.key⟩ scheme with
          | none => (-1, none)
          | some result => (0, some result)
      | (1, _) => (0, none)
      | _ => (-1, none)

def bdbSet (s : σ) (record : List Field) : Int × σ :=
  match vpPack record with
  | none => (-1, s)
  | some vp =>
      let (r, s) := db.put s ⟨vp.key⟩ vp.data
      if r ≠ 0 then (-1, s) else (0, s)

def bdbDel (s : σ) (record : List Field) : Int × σ :=
  match vpPack record with
  | none => (-1, s)
  | some vp =>
      let (r, s) := db.del s ⟨vp.key⟩
      if r ≠ 0 then (-1, s) else (0, s)

def bdbDriver : DbtDriver σ where
  ddGet := bdbGet db scheme
  ddSet s record := some (bdbSet db s record)
  ddDel := bdbDel db

end Driver

/-! ## The janitor -/

/-- The members of `dbt_t` that the janitor uses. -/
structure Dbt (σ : Type) where
  scheme : List FieldSpec
  expireField : Bytes
  cleanupSchedule : BitVec 32
  cleanupDeleted : Int
  handle : σ

section Janitor
variable {σ : Type} (db : Db185 σ) (cfDbtFatalErrors : Bool)

/-- `*expire` in `dbt_common_validate`, a `long`. -/
def expireOf (expireField : Bytes) (record : List Field) : Option Int :=
  (vlistRecordGet record expireField).bind fun memory => (readWord memory).map BitVec.toInt

/-- `dbt_common_validate`; there is no result where it calls `log_die`. -/
def dbtCommonValidate (dbt : Dbt σ) (record : List Field) : Option Int :=
  (expireOf dbt.expireField record).map fun expire => if dbt.cleanupSchedule.toInt > expire then 0 else 1

def dbtJanitorValidate (dbt : Dbt σ) (record : List Field) : Option (Int × Dbt σ) :=
  match dbtCommonValidate dbt record with
  | none => none
  | some expire =>
      if expire = -1 then some (-1, dbt)
      else if expire ≠ 0 then some (0, dbt)
      else
        (dbtDbDel (bdbDriver db dbt.scheme) cfDbtFatalErrors dbt.handle record).map fun (r, s) =>
          if r ≠ 0 then (-1, { dbt with handle := s })
          else (0, { dbt with handle := s, cleanupDeleted := dbt.cleanupDeleted + 1 })

/-- The loop of `bdb_walk`, which calls its callback at most `fuel` times. -/
def bdbWalkLoop (callback : Dbt σ → List Field → Option (Int × Dbt σ)) :
    Nat → SeqFlag → Dbt σ → Option (Int × Dbt σ)
  | 0, _, _ => none
  | fuel + 1, flag, dbt =>
      match db.seq dbt.handle flag with
      | ((0, key, data), s) =>
          match vpUnpack ⟨data, key.bytes⟩ dbt.scheme with
          | none => some (-1, { dbt with handle := s })
          | some record =>
              -- a callback that fails is only logged
              (callback { dbt with handle := s } record).bind fun (_, dbt) =>
                bdbWalkLoop callback fuel .next dbt
      | ((r, _, _), s) => some (if r = 1 then 0 else -1, { dbt with handle := s })

/-- `dbt_db_walk` of the driver. -/
def dbtDbWalk (callback : Dbt σ → List Field → Option (Int × Dbt σ)) (fuel : Nat) (dbt : Dbt σ) :
    Option (Int × Dbt σ) :=
  (bdbWalkLoop db callback fuel .first dbt).bind fun (r, dbt) => unlessFatal cfDbtFatalErrors r (r, dbt)

/-- `dbt_janitor_cleanup_walk`; the driver has a `dd_sync`, whose failure is only logged. -/
def dbtJanitorCleanupWalk (fuel : Nat) (dbt : Dbt σ) : Option (Int × Dbt σ) :=
  (dbtDbWalk db cfDbtFatalErrors (dbtJanitorValidate db cfDbtFatalErrors) fuel
      { dbt with cleanupDeleted := 0 }).map fun (r, dbt) =>
    if r ≠ 0 then (-1, dbt)
    else (dbt.cleanupDeleted, { dbt with handle := (db.sync dbt.handle).2 })

/-- A call of the daemon, or a round of the janitor. -/
inductive BdbCall where
  | serve (call : MemdbCall)
  | cleanup (schedule : BitVec 32)

def BdbCall.OfScheme (scheme : List FieldSpec) : BdbCall → Prop
  | .serve call => Mopher.OfScheme scheme call.record
  | .cleanup _ => True

def bdbServe (fuel : Nat) (dbt : Dbt σ) : BdbCall → Option (Answer × Dbt σ)
  | .serve call =>
      (dbtServe (bdbDriver db dbt.scheme) cfDbtFatalErrors dbt.handle call).map fun (answer, s) =>
        (answer, { dbt with handle := s })
  | .cleanup schedule =>
      (dbtJanitorCleanupWalk db cfDbtFatalErrors fuel { dbt with cleanupSchedule := schedule }).map
        fun (deleted, dbt) => ((deleted, none), dbt)

end Janitor

/-! ## The map -/

/-- Records by the bytes of their key fields. -/
abbrev Stored := List Bytes → Option (List Field)

/-- The record has expired before the schedule. -/
def expired (expireField : Bytes) (schedule : BitVec 32) (record : List Field) : Bool :=
  (expireOf expireField record).any fun expire => decide (expire < schedule.toInt)

/-- What a call of the daemon is to say and to do; `missing` is the answer to the deletion of
what is not there. -/
def mapServe (missing : Option Int) (stored : Stored) : MemdbCall → Option (Answer × Stored)
  | .get record => some ((0, stored (keyOf record)), stored)
  | .set record => some ((0, none), Function.update stored (keyOf record) (some record))
  | .del record =>
      if stored (keyOf record) = none then missing.map fun r => ((r, none), stored)
      else some ((0, none), Function.update stored (keyOf record) none)

open Classical in
/-- The janitor removes what has expired and counts it; it dies of a record without a time. -/
noncomputable def mapCleanup (expireField : Bytes) (schedule : BitVec 32) (stored : Stored) :
    Option (Answer × Stored) :=
  if ∀ key record, stored key = some record → (expireOf expireField record).isSome = true then
    some ((({key | ∃ record, stored key = some record ∧ expired expireField schedule record = true}.ncard : Nat), none),
      fun key => (stored key).filter fun record => !expired expireField schedule record)
  else none

/-- The daemon dies of a failed deletion if errors are fatal. -/
def ifMissing (cfDbtFatalErrors : Bool) : Option Int := if cfDbtFatalErrors then none else some (-1)

noncomputable def bdbSpec (cfDbtFatalErrors : Bool) (expireField : Bytes) (stored : Stored) :
    BdbCall → Option (Answer × Stored)
  | .serve call => mapServe (ifMissing cfDbtFatalErrors) stored call
  | .cleanup schedule => mapCleanup expireField schedule stored

end Mopher.Bdb
