import Mopher.Vtable

/-!
# Hit lists

Model of `hitlist_lookup` of `hitlist.c` on the record of one key, with the two
ways to store it: `dbt_db_set` of the record as a plain driver does it, and for a
driver that uses SQL the statements of `sql_db_set`, which add a difference to a
column that is flagged `VF_SQL_SAFE_UPDATE`.  The database answers every call, and
an `UPDATE` counts the rows that it matches.

The difference of the expiry is the timeout, whatever is stored, so the drivers
keep different records as soon as a record is extended at a time other than the one
at which it expires.
-/

set_option autoImplicit false

namespace Mopher

/-- `hitlist_t` as far as a lookup uses it. -/
structure Hitlist where
  create : Int
  update : Int
  count : Int
  timeout : Int
  extend : Int
  sum : Option String

/-- The fields of a record that are not part of the key; `none` is a null value. -/
structure HitRecord where
  value : Option Int
  expire : Option Int
deriving DecidableEq

/-- A call of `hitlist_lookup`: `time(NULL)`, whether the symbols of the key are set,
and the symbols of the mailspec. -/
structure HitCall where
  now : Int
  keyed : Bool
  attrs : Table

/-- The return value of `hitlist_lookup` and the symbol that it sets: it fails, the
symbol is null or it has a value.  A sum over a null variable crashes. -/
inductive HitResult where
  | failed
  | crashed
  | null
  | value (n : Int)
deriving DecidableEq

def intMax : Int := 2147483647

/-! ## Storing -/

/-- A field of a record in an SQL statement. -/
structure SqlField where
  data : Option Int
  safeUpdate : Bool

structure SqlRecord where
  value : SqlField
  expire : SqlField

/-- A column after `column=value` or `column=column+value` of `sql_key_value`. -/
def sqlKeyValue (field : SqlField) (column : Option Int) : Option Int :=
  if field.safeUpdate then
    match column, field.data with
    | some stored, some difference => some (stored + difference)
    | _, _ => none
  else field.data

/-- `sql_db_set`: an `UPDATE`, and an `INSERT` when there is no row. -/
def sqlDbSet (row : Option HitRecord) (record : SqlRecord) : HitRecord :=
  match row with
  | some row => ⟨sqlKeyValue record.value row.value, sqlKeyValue record.expire row.expire⟩
  | none => ⟨record.value.data, record.expire.data⟩

/-! ## Looking up -/

/-- The number that is added to the value. -/
def hitlistAddition (hl : Hitlist) (attrs : Table) : Except HitResult Int :=
  if hl.count ≠ 0 then .ok 1
  else
    match hl.sum with
    | none => .ok 0
    | some name =>
        match vtableLookup attrs name with
        | none => .error .failed
        | some (.scalar (.int n)) => .ok n
        | some (.nil .int) => .error .crashed
        | some _ => .error .failed

/-- The new expiry and its difference. -/
def hitlistExpire (hl : Hitlist) (now expire : Int) : Int × Int :=
  if hl.timeout = 0 then (intMax, 0)
  else if hl.extend ≠ 0 then (now + hl.timeout, hl.timeout)
  else if expire = 0 then (now + hl.timeout, hl.timeout)
  else (expire, 0)

/-- How the record is stored; `found` says whether it was in the database. -/
def hitlistStore (useSql found : Bool) (stored : Option HitRecord) (value valueDiff expire expireDiff : Int) :
    HitRecord :=
  if useSql then
    if found then sqlDbSet stored ⟨⟨some valueDiff, true⟩, ⟨some expireDiff, true⟩⟩
    else sqlDbSet stored ⟨⟨some value, false⟩, ⟨some expire, false⟩⟩
  else ⟨some value, some expire⟩

/-- The part of `hitlist_lookup` once there is a record. -/
def hitlistHit (hl : Hitlist) (useSql found : Bool) (stored : Option HitRecord) (record : HitRecord)
    (call : HitCall) : HitResult × Option HitRecord :=
  match record.value, record.expire with
  | some value, some expire =>
      match hitlistAddition hl call.attrs with
      | .error result => (result, stored)
      | .ok diff =>
          if hl.update = 0 then (.value (value + diff), stored)
          else
            let (expire', expireDiff) := hitlistExpire hl call.now expire
            (.value (value + diff),
              some (hitlistStore useSql found stored (value + diff) diff expire' expireDiff))
  | _, _ => (.failed, stored)

def hitlistLookup (hl : Hitlist) (useSql : Bool) (stored : Option HitRecord) (call : HitCall) :
    HitResult × Option HitRecord :=
  if !call.keyed then (.null, stored)
  else
    match stored with
    | none =>
        if hl.create = 0 then (.null, stored)
        else hitlistHit hl useSql false stored ⟨some 0, some 0⟩ call
    | some record => hitlistHit hl useSql true stored record call

/-- What the calls return, and the record after them. -/
def hitlistRun (hl : Hitlist) (useSql : Bool) (stored : Option HitRecord) :
    List HitCall → List HitResult × Option HitRecord
  | [] => ([], stored)
  | call :: rest =>
      let (result, next) := hitlistLookup hl useSql stored call
      let (results, final) := hitlistRun hl useSql next rest
      (result :: results, final)

/-! ## When the drivers agree -/

/-- The difference fits the stored expiry: a record that never expires is stored so, a
record that is extended expires now, and a record with a fixed timeout has an expiry. -/
def DifferenceFits (hl : Hitlist) (now expire : Int) : Prop :=
  if hl.timeout = 0 then expire = intMax
  else if hl.extend ≠ 0 then expire = now
  else expire = 0 → now = 0

/-- If the call updates the record that is stored, the difference fits. -/
def UpdateFits (hl : Hitlist) (stored : Option HitRecord) (call : HitCall) : Prop :=
  ∀ value expire diff, call.keyed = true → hl.update ≠ 0 → stored = some ⟨some value, some expire⟩ →
    hitlistAddition hl call.attrs = .ok diff → DifferenceFits hl call.now expire

theorem hitlistExpire_iff (hl : Hitlist) (now expire : Int) :
    expire + (hitlistExpire hl now expire).2 = (hitlistExpire hl now expire).1 ↔
      DifferenceFits hl now expire := by
  unfold hitlistExpire DifferenceFits
  split_ifs with never extended fresh
  · rw [add_zero]
  · constructor
    · intro same
      have := same
      simp only at this
      omega
    · rintro rfl
      rfl
  · subst fresh
    simp only [true_implies]
    constructor
    · intro same
      omega
    · rintro rfl
      rfl
  · refine iff_of_true ?_ fun absent => (fresh absent).elim
    rw [add_zero]

/-- A hit on the stored record is stored alike exactly when the difference fits: the
value always does. -/
theorem hitlistStore_agrees_iff (hl : Hitlist) (now value expire diff : Int) :
    hitlistStore true true (some ⟨some value, some expire⟩) (value + diff) diff
        (hitlistExpire hl now expire).1 (hitlistExpire hl now expire).2 =
      hitlistStore false true (some ⟨some value, some expire⟩) (value + diff) diff
        (hitlistExpire hl now expire).1 (hitlistExpire hl now expire).2 ↔
      DifferenceFits hl now expire := by
  rw [← hitlistExpire_iff]
  simp [hitlistStore, sqlDbSet, sqlKeyValue]

/-- One call does the same with both drivers exactly when the difference fits. -/
theorem hitlistLookup_agrees_iff (hl : Hitlist) (stored : Option HitRecord) (call : HitCall) :
    hitlistLookup hl true stored call = hitlistLookup hl false stored call ↔
      UpdateFits hl stored call := by
  unfold hitlistLookup
  cases keyed : call.keyed with
  | false =>
      refine iff_of_true rfl ?_
      intro value expire diff keyed'
      rw [keyed] at keyed'
      cases keyed'
  | true =>
      simp only [Bool.not_true, Bool.false_eq_true, if_false]
      cases stored with
      | none =>
          -- a new record is inserted as it is
          refine iff_of_true rfl ?_
          intro value expire diff _ _ impossible
          cases impossible
      | some record =>
          obtain ⟨value, expire⟩ := record
          cases value with
          | none => exact iff_of_true rfl (fun _ _ _ _ _ impossible => by cases impossible)
          | some value =>
              cases expire with
              | none => exact iff_of_true rfl (fun _ _ _ _ _ impossible => by cases impossible)
              | some expire =>
                  simp only [hitlistHit]
                  cases addition : hitlistAddition hl call.attrs with
                  | error result =>
                      refine iff_of_true rfl ?_
                      intro _ _ diff _ _ _ impossible
                      rw [addition] at impossible
                      cases impossible
                  | ok diff =>
                      by_cases off : hl.update = 0
                      · simp only [off, if_true]
                        exact iff_of_true trivial fun _ _ _ _ on => (on off).elim
                      · simp only [if_neg off, Prod.mk.injEq, Option.some.injEq, true_and]
                        rw [hitlistStore_agrees_iff]
                        constructor
                        · intro fits _ _ _ _ _ same _
                          cases same
                          exact fits
                        · intro fits
                          exact fits value expire diff keyed off rfl addition

/-! ## Runs -/

theorem hitlistRun_append (hl : Hitlist) (useSql : Bool) (front back : List HitCall) :
    ∀ stored : Option HitRecord, hitlistRun hl useSql stored (front ++ back) =
      ((hitlistRun hl useSql stored front).1 ++
          (hitlistRun hl useSql (hitlistRun hl useSql stored front).2 back).1,
        (hitlistRun hl useSql (hitlistRun hl useSql stored front).2 back).2) := by
  induction front with
  | nil => intro stored; rfl
  | cons call front ih =>
      intro stored
      simp only [List.cons_append, hitlistRun, ih]

theorem hitlistRun_snoc (hl : Hitlist) (useSql : Bool) (stored : Option HitRecord) (front : List HitCall)
    (call : HitCall) : hitlistRun hl useSql stored (front ++ [call]) =
      ((hitlistRun hl useSql stored front).1 ++
          [(hitlistLookup hl useSql (hitlistRun hl useSql stored front).2 call).1],
        (hitlistLookup hl useSql (hitlistRun hl useSql stored front).2 call).2) := by
  rw [hitlistRun_append]
  rfl

/-- The drivers agree after each call, on what was returned and on what is stored,
exactly when every difference that is stored fits. -/
theorem drivers_agree_iff (hl : Hitlist) (stored : Option HitRecord) (calls : List HitCall) :
    (∀ front back, calls = front ++ back →
        hitlistRun hl true stored front = hitlistRun hl false stored front) ↔
      ∀ front call back, calls = front ++ call :: back →
        UpdateFits hl (hitlistRun hl false stored front).2 call := by
  constructor
  · intro agree front call back split
    have before := agree front (call :: back) split
    have after := agree (front ++ [call]) back (by rw [split]; simp)
    rw [hitlistRun_snoc, hitlistRun_snoc, before, Prod.mk.injEq] at after
    rw [← hitlistLookup_agrees_iff]
    exact Prod.ext (by simpa using after.1) after.2
  · -- from one prefix to the next
    intro fits front
    induction front using List.reverseRecOn with
    | nil => intro back _; rfl
    | append_singleton front call ih =>
        intro back split
        have split' : calls = front ++ call :: back := by rw [split]; simp
        have same := (hitlistLookup_agrees_iff hl _ call).mpr (fits front call back split')
        rw [hitlistRun_snoc, hitlistRun_snoc, ih (call :: back) split', same]

/-- A list that is extended by every hit: a hit at 1000 and one at 1010, with a timeout
of 60.  The plain driver stores that the record expires at 1070, the SQL driver
1120. -/
theorem extended_record_expires_later :
    (hitlistRun ⟨1, 1, 1, 60, 1, none⟩ false none
        [⟨1000, true, fun _ => none⟩, ⟨1010, true, fun _ => none⟩]).2 = some ⟨some 2, some 1070⟩ ∧
    (hitlistRun ⟨1, 1, 1, 60, 1, none⟩ true none
        [⟨1000, true, fun _ => none⟩, ⟨1010, true, fun _ => none⟩]).2 = some ⟨some 2, some 1120⟩ ∧
    hitlistRun ⟨1, 1, 1, 60, 1, none⟩ true none
        [⟨1000, true, fun _ => none⟩, ⟨1010, true, fun _ => none⟩] ≠
      hitlistRun ⟨1, 1, 1, 60, 1, none⟩ false none
        [⟨1000, true, fun _ => none⟩, ⟨1010, true, fun _ => none⟩] := by
  decide

end Mopher
