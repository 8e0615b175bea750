import Mopher.Var
import Mopher.Lib.CBuffer

/-!
# The janitor's schedule

Model of `dbt_janitor` in `dbt.c`, with `dbt_register` and the records that come and go
between two rounds.  Each table has an interval and a schedule of its own; the thread
sleeps until the first schedule, and is also woken by signals and for no reason.
`dbt_common_validate` takes the schedule of the table for the time.

The tables are open, and their drivers can walk; what one cleanup does to a table is in
`Memdb.Cleanup`.  `cleanups` and `since` are no part of the program: they keep when a table
was cleaned, and when a record was stored.
-/

set_option autoImplicit false

namespace Mopher.Janitor

open CBuffer

/-- What the janitor reads of a record. -/
structure Record where
  expire : Int
  since : Int

/-- The members of `dbt_t` that the janitor uses. -/
structure Table where
  interval : Int
  schedule : Int
  records : Bytes → Option Record
  cleanups : List Int

/-- `dbt_tables` between two rounds; `wake` is what `pthread_cond_timedwait` waits for. -/
structure State where
  tables : List (Bytes × Table)
  now : Int
  wake : Option Int

section Model

/-- `dbt_common_validate`. -/
def dbtCommonValidate (t : Table) (record : Record) : Int := if t.schedule > record.expire then 0 else 1

/-- `dbt_janitor_cleanup`. -/
def dbtJanitorCleanup (now : Int) (t : Table) : Table :=
  { t with
    records := fun key => (t.records key).filter fun record => dbtCommonValidate t record ≠ 0
    cleanups := now :: t.cleanups }

/-- What the first loop of a round does to a table. -/
def visit (now : Int) (t : Table) : Table :=
  if t.interval = -1 then t
  else
    let t := if t.schedule = 0 then { t with schedule := cInt now } else t
    if now < t.schedule then t
    else { dbtJanitorCleanup now t with schedule := cInt (now + t.interval) }

/-- An `int` as an `unsigned long`. -/
def toULong (n : Int) : Int := n % 2 ^ 64

/-- What the second loop of a round does with a table. -/
def earlier (schedule : Int) (t : Table) : Int :=
  if t.interval = -1 then schedule
  else if toULong t.schedule < schedule then toULong t.schedule
  else schedule

/-- When the thread wakes up. -/
def nextRun (now : Int) (tables : List (Bytes × Table)) : Int :=
  let schedule := tables.foldl (fun schedule entry => earlier schedule entry.2) 0xffffffff
  if schedule = 0xffffffff then now + 1 else schedule

/-- One round of `dbt_janitor`. -/
def round (now : Int) (s : State) : State :=
  let tables := s.tables.map fun entry => (entry.1, visit now entry.2)
  ⟨tables, now, some (nextRun now tables)⟩

/-- `dbt_register`. -/
def dbtRegister (name : Bytes) (interval : Int) (s : State) : State :=
  { s with tables := (name, ⟨interval, 0, fun _ => none, []⟩) :: s.tables }

/-- A record is stored, or deleted, by another thread. -/
def dbtStore (name key : Bytes) (record : Option Record) (s : State) : State :=
  { s with
    tables := s.tables.map fun entry =>
      if entry.1 = name then
        (entry.1, { entry.2 with records := Function.update entry.2.records key record })
      else entry }

end Model

/-! ## Runs -/

/-- The states between rounds, where the thread comes at most `lag` later than it should,
and the times are numbers of seconds that an `int` has room for. -/
inductive Reach (lag : Int) : State → Prop where
  | start : Reach lag ⟨[], 0, none⟩
  | register {s : State} (name : Bytes) {interval : Int} : Reach lag s → interval = -1 ∨ 0 ≤ interval →
      Reach lag (dbtRegister name interval s)
  | store {s : State} (name key : Bytes) {record : Option Record} : Reach lag s →
      (∀ r, record = some r → s.now ≤ r.since) → Reach lag (dbtStore name key record s)
  | round {s : State} {now : Int} : Reach lag s → s.now ≤ now → 0 < now →
      (∀ wake, s.wake = some wake → now ≤ wake + lag) →
      (∀ entry ∈ s.tables, now + max entry.2.interval 0 < 2 ^ 31) → Reach lag (round now s)

/-- Two cleanups, one after the other, of a table with this interval. -/
def Spaced (lag interval later before : Int) : Prop :=
  interval ≤ later - before ∧ later - before ≤ interval + lag

/-- What the rounds have made of a table. -/
inductive Kept (lag : Int) (s : State) (t : Table) : Prop where
  | idle : t.interval = -1 → t.cleanups = [] → Kept lag s t
  | fresh : 0 ≤ t.interval → t.cleanups = [] → t.schedule = 0 → Kept lag s t
  | cleaned (last : Int) (before : List Int) (wake : Int) : 0 ≤ t.interval → t.cleanups = last :: before →
      t.schedule = last + t.interval → 0 < last → last ≤ s.now → last + t.interval < 2 ^ 31 →
      s.now < t.schedule ∨ last = s.now → s.wake = some wake → wake ≤ t.schedule →
      List.IsChain (Spaced lag t.interval) (last :: before) →
      (∀ key record, t.records key = some record → last ≤ max record.expire record.since + lag) →
      Kept lag s t

/-! ## Rounds -/

section Round
variable {lag now : Int} {s : State} {t : Table}

theorem earlier_le (schedule : Int) (t : Table) : earlier schedule t ≤ schedule := by
  unfold earlier
  split
  · exact Int.le_refl _
  · split
    · rename_i less
      exact Int.le_of_lt less
    · exact Int.le_refl _

theorem foldl_earlier_le (l : List (Bytes × Table)) : ∀ schedule : Int,
    l.foldl (fun schedule entry => earlier schedule entry.2) schedule ≤ schedule ∧
      ∀ entry ∈ l, entry.2.interval ≠ -1 →
        l.foldl (fun schedule entry => earlier schedule entry.2) schedule ≤ toULong entry.2.schedule := by
  induction l with
  | nil => exact fun schedule => ⟨Int.le_refl _, fun entry member => by cases member⟩
  | cons first rest ih =>
      intro schedule
      obtain ⟨below, each⟩ := ih (earlier schedule first.2)
      refine ⟨Int.le_trans below (earlier_le _ _), fun entry member active => ?_⟩
      rcases List.mem_cons.mp member with rfl | inside
      · refine Int.le_trans below ?_
        rw [earlier, if_neg active]
        split
        · exact Int.le_refl _
        · omega
      · exact each entry inside active

/-- The thread does not sleep beyond the schedule of a table. -/
theorem nextRun_le {tables : List (Bytes × Table)} {entry : Bytes × Table} (member : entry ∈ tables)
    (active : entry.2.interval ≠ -1) (positive : 0 ≤ entry.2.schedule)
    (small : entry.2.schedule < 2 ^ 31) (now : Int) : nextRun now tables ≤ entry.2.schedule := by
  have first := (foldl_earlier_le tables 0xffffffff).2 entry member active
  have same : toULong entry.2.schedule = entry.2.schedule := by
    unfold toULong
    omega
  rw [same] at first
  have some' : ¬ tables.foldl (fun schedule entry => earlier schedule entry.2) 0xffffffff = 0xffffffff := by
    omega
  rw [nextRun]
  simp only [if_neg some']
  exact first

theorem visit_interval (now : Int) (t : Table) : (visit now t).interval = t.interval := by
  unfold visit
  split
  · rfl
  · simp only []
    split
    · split <;> rfl
    · simp only [dbtJanitorCleanup]
      split <;> rfl

/-- When a table is due in a round. -/
def dueAt (now : Int) (t : Table) : Int := if t.schedule = 0 then now else t.schedule

/-- The table after its cleanup. -/
def cleaned (now : Int) (t : Table) : Table where
  interval := t.interval
  schedule := now + t.interval
  records key := (t.records key).filter fun record => dueAt now t ≤ record.expire
  cleanups := now :: t.cleanups

theorem dbtCommonValidate_eq (t : Table) (record : Record) :
    decide (dbtCommonValidate t record ≠ 0) = decide (t.schedule ≤ record.expire) := by
  by_cases old : t.schedule > record.expire
  · rw [dbtCommonValidate, if_pos old]
    exact (decide_eq_false (by omega)).symm
  · rw [dbtCommonValidate, if_neg old]
    exact (decide_eq_true (by omega)).symm

theorem visit_eq (active : 0 ≤ t.interval) (positive : 0 < now) (room : now + t.interval < 2 ^ 31) :
    visit now t = if now < dueAt now t then t else cleaned now t := by
  have small : cInt now = now := cInt_of_bounds (by omega) (by omega)
  have next : cInt (now + t.interval) = now + t.interval := cInt_of_bounds (by omega) (by omega)
  rw [visit, if_neg (by omega)]
  by_cases unset : t.schedule = 0
  · have due : dueAt now t = now := if_pos unset
    simp only [if_pos unset, small, next, due, lt_irrefl, if_false, dbtJanitorCleanup, cleaned,
      dbtCommonValidate_eq]
  · have due : dueAt now t = t.schedule := if_neg unset
    simp only [if_neg unset, next, due, dbtJanitorCleanup, cleaned, dbtCommonValidate_eq]

theorem cleaned_records {key : Bytes} {record : Record} :
    (cleaned now t).records key = some record ↔
      t.records key = some record ∧ dueAt now t ≤ record.expire := by
  simp only [cleaned, Option.filter_eq_some_iff, decide_eq_true_eq]

/-- One table in a round. -/
theorem visit_kept (kept : Kept lag s t) (later : s.now ≤ now) (positive : 0 < now) (lag' : 0 ≤ lag)
    (ontime : ∀ wake, s.wake = some wake → now ≤ wake + lag) (room : now + max t.interval 0 < 2 ^ 31)
    {s' : State} {wake : Int} (at' : s'.now = now) (set' : s'.wake = some wake)
    (sleeps : (visit now t).interval ≠ -1 → 0 ≤ (visit now t).schedule →
      (visit now t).schedule < 2 ^ 31 → wake ≤ (visit now t).schedule) : Kept lag s' (visit now t) := by
  cases kept with
  | idle inactive never =>
      have same : visit now t = t := by rw [visit, if_pos inactive]
      rw [same]
      exact .idle inactive never
  | fresh active never unset =>
      have due : dueAt now t = now := if_pos unset
      have same : visit now t = cleaned now t := by
        rw [visit_eq active positive (by omega), due, if_neg (lt_irrefl now)]
      rw [same] at sleeps ⊢
      have next : (cleaned now t).schedule = now + t.interval := rfl
      have active' : 0 ≤ (cleaned now t).interval := active
      refine .cleaned now [] wake active (by rw [cleaned, never]) rfl positive (by omega) ?_
        (.inr at'.symm) set'
        (sleeps (by omega) (by omega) (by omega)) (List.isChain_singleton _) ?_
      · exact next ▸ (by omega : now + t.interval < 2 ^ 31)
      · intro key record found
        have valid := (cleaned_records.mp found).2
        omega
  | cleaned last before wake' active times due positive' past small passed set'' sleeps' spaced fresh =>
      have soon := ontime wake' set''
      have due' : dueAt now t = t.schedule := if_neg (by omega)
      by_cases early : now < t.schedule
      · have same : visit now t = t := by
          rw [visit_eq active positive (by omega), due', if_pos early]
        rw [same] at sleeps ⊢
        exact .cleaned last before wake active times due positive' (by omega) small (.inl (by omega)) set'
          (sleeps (by omega) (by omega) (by omega)) spaced fresh
      · have same : visit now t = cleaned now t := by
          rw [visit_eq active positive (by omega), due', if_neg early]
        rw [same] at sleeps ⊢
        have next : (cleaned now t).schedule = now + t.interval := rfl
        have active' : 0 ≤ (cleaned now t).interval := active
        refine .cleaned now (last :: before) wake active (by rw [cleaned, times]) rfl positive
          (by omega) ?_ (.inr at'.symm) set' (sleeps (by omega) (by omega) (by omega)) ?_ ?_
        · exact next ▸ (by omega : now + t.interval < 2 ^ 31)
        · refine List.IsChain.cons_cons ?_ spaced
          show t.interval ≤ now - last ∧ now - last ≤ t.interval + lag
          omega
        · intro key record found
          have valid := (cleaned_records.mp found).2
          omega

/-- Between rounds a table stays as it is, but for its records. -/
theorem Kept.store (kept : Kept lag s t) (lag' : 0 ≤ lag) (key : Bytes) {record : Option Record}
    (fresh : ∀ r, record = some r → s.now ≤ r.since) :
    Kept lag s { t with records := Function.update t.records key record } := by
  cases kept with
  | idle inactive never => exact .idle inactive never
  | fresh active never unset => exact .fresh active never unset
  | cleaned last before wake active times due positive past small passed set' sleeps spaced valid =>
      refine .cleaned last before wake active times due positive past small passed set' sleeps spaced ?_
      intro key' r found
      simp only at found
      by_cases same : key' = key
      · rw [same, Function.update_self] at found
        have since := fresh r found
        omega
      · rw [Function.update_of_ne same] at found
        exact valid key' r found

theorem Kept.congr (kept : Kept lag s t) {s' : State} (now : s'.now = s.now) (wake : s'.wake = s.wake) :
    Kept lag s' t := by
  cases kept with
  | idle inactive never => exact .idle inactive never
  | fresh active never unset => exact .fresh active never unset
  | cleaned last before wake' active times due positive past small passed set' sleeps spaced valid =>
      rw [← now] at past passed
      rw [← wake] at set'
      exact .cleaned last before wake' active times due positive past small passed set' sleeps spaced valid

end Round

/-! ## Runs in time -/

section Runs
variable {lag : Int} {s : State}

theorem Reach.kept (lag' : 0 ≤ lag) (reach : Reach lag s) : ∀ entry ∈ s.tables, Kept lag s entry.2 := by
  induction reach with
  | start =>
      intro entry member
      cases member
  | register name reach valid ih =>
      intro entry member
      rcases List.mem_cons.mp member with rfl | inside
      · rcases valid with inactive | active
        · exact .idle inactive rfl
        · exact .fresh active rfl rfl
      · exact (ih entry inside).congr rfl rfl
  | store name key reach fresh ih =>
      intro entry member
      obtain ⟨old, inside, rfl⟩ := List.mem_map.mp member
      simp only
      split
      · exact ((ih old inside).store lag' key fresh).congr rfl rfl
      · exact (ih old inside).congr rfl rfl
  | @round s now reach later positive ontime room ih =>
      intro entry member
      obtain ⟨old, inside, rfl⟩ := List.mem_map.mp member
      refine visit_kept (ih old inside) later positive lag' ontime (room old inside) rfl rfl ?_
      intro active natural small
      exact nextRun_le member active natural small now

end Runs

end Mopher.Janitor
