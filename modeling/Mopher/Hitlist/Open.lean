import Mopher.Lib.PartialRun

/-!
# Opening the database of a hit list

The first lookup of a hit list opens its database, and each later one tries again
until that worked.  Opening registers the table under the name of the list before
the driver opens it, so a second attempt finds the name taken; and when the
insertion fails, `dbt_register` returns without unlocking `dbt_janitor_mutex`.
-/

set_option autoImplicit false

namespace Mopher.Open

/-- `hitlist_t` as far as opening goes: whether the scheme is there, whether the
database is open, and whether `hl_mutex` is held. -/
structure HitlistDb where
  scheme : Bool
  connected : Bool
  mutexHeld : Bool

/-- The names in `dbt_tables`, whether `dbt_janitor_mutex` is held by a lookup, and the
hit lists. -/
structure State where
  tables : List String
  janitorHeld : Bool
  lists : String → HitlistDb

/-- A lookup, and how the steps end that it may come to: `hitlist_record` for the
scheme, `cf_get` or the default database, `vtable_dereference`, the memory for
`sht_insert`, the search for the driver, its mutex, `dd_open`, and what the lookup
returns once the database is open. -/
structure Call where
  name : String
  record : Bool
  config : Bool
  dereferenced : Bool
  memory : Bool
  driver : Bool
  mutex : Bool
  opened : Bool
  answer : Int

/-- A call returns, or it waits for a mutex that nobody unlocks. -/
inductive Result where
  | returned (status : Int) (s : State)
  | blocked

def State.update (s : State) (name : String) (hl : HitlistDb) : State :=
  { s with lists := Function.update s.lists name hl }

def dbtRegister (call : Call) (s : State) : Result :=
  if !call.config then .returned (-1) s
  else if !call.dereferenced then .returned (-1) s
  else if s.janitorHeld then .blocked
  else if !call.memory || decide (call.name ∈ s.tables) then
    .returned (-1) { s with janitorHeld := true }
  else .returned 0 { s with tables := call.name :: s.tables }

/-- `dbt_open_database`; only the driver sees the database. -/
def dbtOpenDatabase (call : Call) : Int :=
  if !call.driver then -1
  else if !call.mutex then -1
  else if !call.opened then -1
  else 0

/-- `hitlist_db_open` from `dbt_register` on. -/
def hitlistRegister (call : Call) (s : State) : Result :=
  match dbtRegister call s with
  | .blocked => .blocked
  | .returned status s =>
      if status ≠ 0 then .returned (-1) s
      else if dbtOpenDatabase call ≠ 0 then .returned (-1) s
      else .returned 0 (s.update call.name { s.lists call.name with connected := true })

def hitlistDbOpen (call : Call) (s : State) : Result :=
  if (s.lists call.name).connected then .returned 0 s
  else if (s.lists call.name).scheme then hitlistRegister call s
  else if !call.record then .returned (-1) s
  else hitlistRegister call (s.update call.name { s.lists call.name with scheme := true })

/-- The label `exit` of `hitlist_lookup`. -/
def unlock (call : Call) (status : Int) (s : State) : Result :=
  .returned status (s.update call.name { s.lists call.name with mutexHeld := false })

def hitlistLookup (call : Call) (s : State) : Result :=
  if (s.lists call.name).mutexHeld then .blocked
  else
    let s := s.update call.name { s.lists call.name with mutexHeld := true }
    match hitlistDbOpen call s with
    | .blocked => .blocked
    | .returned status s => unlock call (if status ≠ 0 then -1 else call.answer) s

/-- The state after a lookup that returned. -/
def lookupStep (s : State) (call : Call) : Option State :=
  match hitlistLookup call s with
  | .returned _ next => some next
  | .blocked => none

/-! ## What is wanted and when it holds -/

/-- No mutex is held. -/
def Free (s : State) : Prop := s.janitorHeld = false ∧ ∀ name, (s.lists name).mutexHeld = false

/-- Whatever is not wrong with the registry goes well. -/
structure Call.Succeeds (call : Call) : Prop where
  record : call.record = true
  config : call.config = true
  dereferenced : call.dereferenced = true
  memory : call.memory = true
  driver : call.driver = true
  mutex : call.mutex = true
  opened : call.opened = true

/-- The call does not return with a mutex, and it opens the database if the driver
does. -/
def OpensCleanly (s : State) (call : Call) : Prop :=
  (∀ status next, hitlistLookup call s = .returned status next → Free next) ∧
    (call.Succeeds → ∃ status next, hitlistLookup call s = .returned status next ∧
      (next.lists call.name).connected = true)

/-- The call gets to `sht_insert`. -/
def Inserts (s : State) (call : Call) : Prop :=
  (s.lists call.name).connected = false ∧
    ((s.lists call.name).scheme = true ∨ call.record = true) ∧ call.config = true ∧
    call.dereferenced = true

/-- There is memory for the record, and the name is not taken. -/
def Room (s : State) (call : Call) : Prop := call.memory = true ∧ call.name ∉ s.tables

/-- If the call inserts its table, there is room for it. -/
def InsertionFits (s : State) (call : Call) : Prop := Inserts s call → Room s call

/-! ## The functions -/

section Functions
variable {s : State} (call : Call)

@[simp] theorem update_janitorHeld (s : State) (name : String) (hl : HitlistDb) :
    (s.update name hl).janitorHeld = s.janitorHeld := rfl

@[simp] theorem update_tables (s : State) (name : String) (hl : HitlistDb) :
    (s.update name hl).tables = s.tables := rfl

@[simp] theorem update_lists_self (s : State) (name : String) (hl : HitlistDb) :
    (s.update name hl).lists name = hl := Function.update_self ..

theorem update_lists_of_ne (s : State) {name other : String} (hl : HitlistDb) (here : other ≠ name) :
    (s.update name hl).lists other = s.lists other := Function.update_of_ne here ..

/-- A change that leaves the mutex of its list alone leaves all of them alone. -/
theorem update_mutexHeld (s : State) (name : String) (hl : HitlistDb)
    (same : hl.mutexHeld = (s.lists name).mutexHeld) (other : String) :
    ((s.update name hl).lists other).mutexHeld = (s.lists other).mutexHeld := by
  by_cases here : other = name
  · subst here
    rw [update_lists_self, same]
  · rw [update_lists_of_ne s hl here]

/-- What a part of the lookup does when it returns: the mutexes of the lists are as
before, the janitor's mutex is kept exactly when the condition holds, and if all goes
well and it does not hold, the database is open. -/
def Does (s : State) (call : Call) (leaks : Prop) (result : Result) : Prop :=
  ∃ status next, result = .returned status next ∧
    (∀ name, (next.lists name).mutexHeld = (s.lists name).mutexHeld) ∧
    (next.janitorHeld = true ↔ leaks) ∧
    (call.Succeeds → ¬ leaks → (next.lists call.name).connected = true)

theorem dbtRegister_free (free : s.janitorHeld = false) :
    (¬ (call.config = true ∧ call.dereferenced = true) ∧ dbtRegister call s = .returned (-1) s) ∨
      ((call.config = true ∧ call.dereferenced = true) ∧ ¬ Room s call ∧
        dbtRegister call s = .returned (-1) { s with janitorHeld := true }) ∨
      ((call.config = true ∧ call.dereferenced = true) ∧ Room s call ∧
        dbtRegister call s = .returned 0 { s with tables := call.name :: s.tables }) := by
  unfold dbtRegister Room
  by_cases config : call.config = true
  · by_cases dereferenced : call.dereferenced = true
    · by_cases memory : call.memory = true
      · by_cases taken : call.name ∈ s.tables
        · refine .inr (.inl ⟨⟨config, dereferenced⟩, fun room => room.2 taken, ?_⟩)
          simp [config, dereferenced, free, memory, taken]
        · refine .inr (.inr ⟨⟨config, dereferenced⟩, ⟨memory, taken⟩, ?_⟩)
          simp [config, dereferenced, free, memory, taken]
      · refine .inr (.inl ⟨⟨config, dereferenced⟩, fun room => memory room.1, ?_⟩)
        simp [config, dereferenced, free, memory]
    · refine .inl ⟨fun both => dereferenced both.2, ?_⟩
      simp [config, dereferenced]
  · refine .inl ⟨fun both => config both.1, ?_⟩
    simp [config]

theorem hitlistRegister_does (free : s.janitorHeld = false) :
    Does s call ((call.config = true ∧ call.dereferenced = true) ∧ ¬ Room s call)
      (hitlistRegister call s) := by
  unfold hitlistRegister
  rcases dbtRegister_free call free with ⟨unready, ran⟩ | ⟨ready, full, ran⟩ | ⟨ready, room, ran⟩
  · rw [ran]
    refine ⟨-1, s, rfl, fun _ => rfl, iff_of_false (by simp [free]) fun both => unready both.1, ?_⟩
    intro succeeds
    exact (unready ⟨succeeds.config, succeeds.dereferenced⟩).elim
  · rw [ran]
    refine ⟨-1, _, rfl, fun _ => rfl, iff_of_true rfl ⟨ready, full⟩, ?_⟩
    intro _ sound
    exact (sound ⟨ready, full⟩).elim
  · rw [ran]
    have sound : ¬ ((call.config = true ∧ call.dereferenced = true) ∧ ¬ Room s call) :=
      fun both => both.2 room
    by_cases opened : dbtOpenDatabase call = 0
    · simp only [opened, ne_eq, not_true, if_false]
      refine ⟨0, _, rfl, ?_, ?_, ?_⟩
      · intro name
        exact update_mutexHeld { s with tables := call.name :: s.tables } call.name
          { s.lists call.name with connected := true } rfl name
      · rw [update_janitorHeld]
        exact iff_of_false (by simp [free]) sound
      · intro _ _
        rw [update_lists_self]
    · simp only [opened, ne_eq, not_true, not_false_eq_true, if_false, if_true]
      refine ⟨-1, _, rfl, fun _ => rfl, iff_of_false (by simp [free]) sound, ?_⟩
      intro succeeds
      refine (opened ?_).elim
      simp [dbtOpenDatabase, succeeds.driver, succeeds.mutex, succeeds.opened]

theorem hitlistDbOpen_does (free : s.janitorHeld = false) :
    Does s call (Inserts s call ∧ ¬ Room s call) (hitlistDbOpen call s) := by
  unfold hitlistDbOpen
  by_cases connected : (s.lists call.name).connected = true
  · have sound : ¬ (Inserts s call ∧ ¬ Room s call) := by
      rintro ⟨⟨unconnected, _⟩, _⟩
      rw [connected] at unconnected
      cases unconnected
    rw [if_pos connected]
    exact ⟨0, s, rfl, fun _ => rfl, iff_of_false (by simp [free]) sound, fun _ _ => connected⟩
  · rw [if_neg connected]
    rw [Bool.not_eq_true] at connected
    by_cases scheme : (s.lists call.name).scheme = true
    · rw [if_pos scheme]
      have inserts : Inserts s call ↔ call.config = true ∧ call.dereferenced = true := by
        unfold Inserts
        simp [connected, scheme]
      rw [inserts]
      exact hitlistRegister_does call free
    · rw [if_neg scheme]
      rw [Bool.not_eq_true] at scheme
      by_cases record : call.record = true
      · have inserts : Inserts s call ↔ call.config = true ∧ call.dereferenced = true := by
          unfold Inserts
          simp [connected, record]
        simp only [record, Bool.not_true, Bool.false_eq_true, if_false]
        obtain ⟨status, next, ran, mutexes, leaks, opens⟩ := hitlistRegister_does call
          (s := s.update call.name { s.lists call.name with scheme := true }) free
        rw [inserts]
        refine ⟨status, next, ran, ?_, leaks, opens⟩
        intro name
        rw [mutexes name]
        exact update_mutexHeld s call.name { s.lists call.name with scheme := true } rfl name
      · have sound : ¬ (Inserts s call ∧ ¬ Room s call) := by
          rintro ⟨⟨_, either, _⟩, _⟩
          rcases either with there | made
          · rw [scheme] at there
            cases there
          · exact record made
        rw [Bool.not_eq_true] at record
        simp only [record, Bool.not_false, if_true]
        refine ⟨-1, s, rfl, fun _ => rfl, iff_of_false (by simp [free]) sound, ?_⟩
        intro succeeds
        rw [succeeds.record] at record
        cases record

/-- A lookup while no mutex is held returns; it keeps the janitor's mutex exactly
when the insertion fails. -/
theorem hitlistLookup_does (free : Free s) :
    ∃ status next, hitlistLookup call s = .returned status next ∧
      (∀ name, (next.lists name).mutexHeld = false) ∧
      (next.janitorHeld = true ↔ ¬ InsertionFits s call) ∧
      (call.Succeeds → InsertionFits s call → (next.lists call.name).connected = true) := by
  have leak : ¬ InsertionFits s call ↔ Inserts s call ∧ ¬ Room s call := by
    unfold InsertionFits
    rw [Classical.not_imp]
  have fits : InsertionFits s call ↔ ¬ (Inserts s call ∧ ¬ Room s call) := by
    rw [← leak, not_not]
  have locked : Inserts (s.update call.name { s.lists call.name with mutexHeld := true }) call ↔
      Inserts s call := by
    unfold Inserts
    rw [update_lists_self]
  obtain ⟨status, next, ran, mutexes, leaks, opens⟩ := hitlistDbOpen_does call
    (s := s.update call.name { s.lists call.name with mutexHeld := true }) free.1
  rw [locked] at leaks opens
  unfold hitlistLookup
  simp only [free.2 call.name, Bool.false_eq_true, if_false, ran]
  refine ⟨_, _, rfl, ?_, ?_, ?_⟩
  · intro name
    by_cases here : name = call.name
    · subst here
      rw [update_lists_self]
    · rw [update_lists_of_ne _ _ here, mutexes name, update_lists_of_ne _ _ here]
      exact free.2 name
  · rw [update_janitorHeld, leak]
    exact leaks
  · intro succeeds sound
    rw [update_lists_self]
    exact opens succeeds (fits.mp sound)

end Functions

/-! ## Sequences of lookups -/

theorem opensCleanly_iff {s : State} (free : Free s) (call : Call) :
    OpensCleanly s call ↔ InsertionFits s call := by
  obtain ⟨status, next, ran, mutexes, leaks, opens⟩ := hitlistLookup_does call free
  constructor
  · rintro ⟨clean, _⟩
    by_contra stuck
    have held := leaks.mpr stuck
    rw [(clean status next ran).1] at held
    cases held
  · intro sound
    refine ⟨?_, ?_⟩
    · intro status' next' ran'
      rw [ran] at ran'
      cases ran'
      refine ⟨?_, mutexes⟩
      rw [← Bool.not_eq_true, leaks, not_not]
      exact sound
    · intro succeeds
      exact ⟨status, next, ran, opens succeeds sound⟩

/-- Over every sequence of lookups, none returns with a mutex and each opens its
database as soon as the driver can, exactly when every insertion into `dbt_tables`
has memory and a name that is not taken. -/
theorem lookups_open_cleanly_iff (calls : List Call) {s : State} (free : Free s) :
    PartialRun.EachStep lookupStep OpensCleanly s calls ↔
      PartialRun.EachStep lookupStep InsertionFits s calls := by
  refine PartialRun.eachStep_congr lookupStep Free ?_ ?_ calls free
  · intro s call free
    exact opensCleanly_iff free call
  · intro s call next _ stepped clean
    unfold lookupStep at stepped
    split at stepped
    · rename_i status next' ran
      cases stepped
      exact clean.1 status next ran
    · cases stepped

/-- No table is registered and no list is open. -/
def started : State := ⟨[], false, fun _ => ⟨false, false, false⟩⟩

theorem started_free : Free started := ⟨rfl, fun _ => rfl⟩

/-- A lookup of the list `hits` in which all goes well. -/
def goodCall : Call := ⟨"hits", true, true, true, true, true, true, true, 0⟩

/-- A lookup without a configuration, and one with it. -/
theorem configured_later_opens :
    PartialRun.EachStep lookupStep OpensCleanly started
      [{ goodCall with config := false }, goodCall] := by
  apply (lookups_open_cleanly_iff _ started_free).mpr
  rw [PartialRun.eachStep_cons lookupStep rfl, PartialRun.eachStep_cons lookupStep rfl]
  refine ⟨?_, ?_, PartialRun.eachStep_nil _ _ _⟩
  · rintro ⟨_, _, impossible, _⟩
    cases impossible
  · intro _
    exact ⟨rfl, by decide⟩

/-- The driver fails once.  The next lookup cannot register the table again and
returns with the mutex of the janitor. -/
theorem failed_open_cannot_be_retried :
    ∃ first second : State,
      hitlistLookup { goodCall with opened := false } started = .returned (-1) first ∧
      hitlistLookup goodCall first = .returned (-1) second ∧ second.janitorHeld = true ∧
      (second.lists "hits").connected = false ∧
      ¬ PartialRun.EachStep lookupStep OpensCleanly started
        [{ goodCall with opened := false }, goodCall] := by
  refine ⟨_, _, rfl, rfl, rfl, rfl, ?_⟩
  intro each
  obtain ⟨clean, _⟩ := each [{ goodCall with opened := false }] goodCall [] _ rfl rfl
  cases (clean (-1) _ rfl).1

end Mopher.Open
