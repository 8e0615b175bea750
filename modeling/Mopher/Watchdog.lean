import Mopher.Sht

/-!
# The watchdog

Model of `watchdog.c` with the callbacks of `milter.c` that call it.  A record of
`watchdog_table` has no strings of its own: `wd_id` and `wd_hostaddr` point into the
`mp_table` of the connection that was first seen under its key.  `milter_close` takes the
record out before it deletes that table; the error exit of `milter_common_init` deletes
the table only.

Connections are numbered.  The callbacks of one of them come one after the other; those
of different connections, and the `watchdog_check` of the janitor, in any order.  What
`milter.c` sets once in a connection is set once here.  `cf_watchdog_stage_timeout` is
not zero.
-/

set_option autoImplicit false

namespace Mopher.Watchdog

open StringTable

/-- The two strings of `mp_table` that `watchdog` asks for. -/
structure Conn where
  id : Option Bytes
  hostaddr : Option Bytes
deriving DecidableEq

/-- Where a connection is: `closing` between the two halves of `milter_close`. -/
inductive Slot where
  | unborn
  | live (conn : Conn)
  | closing (conn : Conn)
  | unwatched (conn : Conn)
  | deleted
deriving DecidableEq

/-- `mp_table`, as long as it is not deleted. -/
def Slot.conn : Slot → Option Conn
  | .live conn | .closing conn | .unwatched conn => some conn
  | .unborn | .deleted => none

/-- `watchdog_t`; `owner` is the connection whose strings `wd_id` and `wd_hostaddr` are. -/
structure WatchdogRecord where
  owner : Nat
  stage : Bytes
  received : Int
  instage : Int

/-- `watchdog_table` has pointers to `records`. -/
structure State where
  slots : Nat → Slot
  table : Sht Nat
  records : Nat → WatchdogRecord
  next : Nat

def State.start : State where
  slots _ := .unborn
  table := ⟨none, false, [], []⟩
  records _ := ⟨0, [], 0, 0⟩
  next := 0

section Model

/-- `watchdog_init`. -/
def watchdogInit (table : Sht Nat) : Sht Nat :=
  if table.ht.isNone then shtInit 256 true else table

/-- `watchdog`.  `malloc` says whether `watchdog_create` succeeds, and `insert` whether
`sht_insert` does. -/
def watchdog (depth : Nat) (s : State) (c : Nat) (conn : Conn) (stage : Bytes) (now : Int)
    (malloc insert : Bool) : Option State :=
  let table := watchdogInit s.table
  match conn.id, conn.hostaddr with
  | some id, some _ =>
      (shtLookup table id).bind fun wd =>
        match wd with
        | none =>
            if !malloc then some { s with table := table }
            else
              (shtInsert depth table id (some s.next) insert).map fun inserted =>
                { s with
                  table := inserted.2
                  records := Function.update s.records s.next ⟨c, stage, now, now⟩
                  next := s.next + 1 }
        | some wd =>
            some { s with
              table := table
              records := Function.update s.records wd { s.records wd with stage := stage, instage := now } }
  | _, _ => some { s with table := table }

/-- `watchdog_close`. -/
def watchdogClose (s : State) (conn : Conn) : Option State :=
  match conn.id with
  | none => some s
  | some id => (shtRemove s.table id).map fun table => { s with table := table }

inductive Event where
  | create (c : Nat)
  | identify (c : Nat) (id : Bytes)
  | address (c : Nat) (hostaddr : Bytes)
  | stage (c : Nat) (name : Bytes) (now : Int) (malloc insert : Bool)
  | close (c : Nat) (name : Bytes) (now : Int) (malloc insert : Bool)
  | unwatch (c : Nat)
  | delete (c : Nat)
  | fail (c : Nat)

def State.put (s : State) (c : Nat) (slot : Slot) : State :=
  { s with slots := Function.update s.slots c slot }

/-- What happens to one connection; there is no result for a callback out of order. -/
def step (depth : Nat) (s : State) : Event → Option State
  | .create c =>
      match s.slots c with
      | .unborn => some (s.put c (.live ⟨none, none⟩))
      | _ => none
  | .identify c id =>
      match s.slots c with
      | .live ⟨none, hostaddr⟩ => some (s.put c (.live ⟨some id, hostaddr⟩))
      | _ => none
  | .address c hostaddr =>
      match s.slots c with
      | .live ⟨id, none⟩ => some (s.put c (.live ⟨id, some hostaddr⟩))
      | _ => none
  | .stage c name now malloc insert =>
      match s.slots c with
      | .live conn => watchdog depth s c conn name now malloc insert
      | _ => none
  | .close c name now malloc insert =>
      match s.slots c with
      | .live conn => (watchdog depth s c conn name now malloc insert).map fun s => s.put c (.closing conn)
      | _ => none
  | .unwatch c =>
      match s.slots c with
      | .closing conn => (watchdogClose s conn).map fun s => s.put c (.unwatched conn)
      | _ => none
  | .delete c =>
      match s.slots c with
      | .unwatched _ => some (s.put c .deleted)
      | _ => none
  | .fail c =>
      match s.slots c with
      | .live _ => some (s.put c .deleted)
      | _ => none

def run (depth : Nat) : State → List Event → Option State
  | s, [] => some s
  | s, event :: rest => (step depth s event).bind fun s => run depth s rest

/-- A line of `watchdog_check`. -/
structure Report where
  id : Option Bytes
  stage : Bytes
  hostaddr : Option Bytes
  age : Int
  inStage : Int
deriving DecidableEq

/-- The loop of `watchdog_check`; there is no result where it reads strings of a table
that is deleted. -/
def checkAll (timeout now : Int) (s : State) : List Nat → Option (List Report)
  | [] => some []
  | p :: rest =>
      let wd := s.records p
      if now - wd.received ≤ timeout then checkAll timeout now s rest
      else
        (s.slots wd.owner).conn.bind fun conn =>
          (checkAll timeout now s rest).map
            (⟨conn.id, wd.stage, conn.hostaddr, now - wd.received, now - wd.instage⟩ :: ·)

/-- `watchdog_check`. -/
def watchdogCheck (fuel : Nat) (timeout now : Int) (s : State) : Option (List Report) :=
  (watchdogInit s.table).ht.bind fun t =>
    (shtDrain t fuel (htStart t)).bind fun found => checkAll timeout now s found

end Model

/-! ## What the records point to -/

/-- `sht_lookup` finds the record under the key. -/
def State.Watches (s : State) (key : Bytes) (p : Nat) : Prop := shtLookup s.table key = some (some p)

/-- A record has strings of this connection. -/
def State.Owns (s : State) (c : Nat) : Prop := ∃ key p, s.Watches key p ∧ (s.records p).owner = c

/-- A record points to strings that were freed. -/
def State.Dangles (s : State) : Prop :=
  ∃ key p, s.Watches key p ∧ (s.slots (s.records p).owner).conn = none

/-- The connection of this record can still be closed, and has its key for an id. -/
def Kept (slot : Slot) (key : Bytes) : Prop :=
  ∃ hostaddr, slot = .live ⟨some key, some hostaddr⟩ ∨ slot = .closing ⟨some key, some hostaddr⟩

/-- The map has allocated records of connections that are there. -/
def Owned (s : State) (m : PtrMap Nat) : Prop :=
  ∀ key data, m key = some data →
    ∃ p, data = some p ∧ p < s.next ∧ Kept (s.slots (s.records p).owner) key

/-- The table is such a map, and it exists when a connection comes to be taken out. -/
structure Sound (s : State) : Prop where
  table : s.table.ht = none ∨ ∃ t m, Holds s.table t m ∧ Owned s m
  ready : ∀ c conn, s.slots c = .closing conn → s.table.ht ≠ none

section Sound
variable {s : State} {t : Ht (ShtRecord Nat)} {m : PtrMap Nat}

theorem watches_iff (holds : Holds s.table t m) (owned : Owned s m) (key : Bytes) (p : Nat) :
    s.Watches key p ↔ m key = some (some p) := by
  rw [State.Watches, shtLookup_spec holds]
  cases here : m key with
  | none => simp
  | some data =>
      obtain ⟨q, rfl, _⟩ := owned key data here
      simp

theorem not_watches_of_none (none' : s.table.ht = none) (key : Bytes) (p : Nat) :
    ¬ s.Watches key p := by
  rw [State.Watches, shtLookup, none']
  simp

theorem Sound.kept (sound : Sound s) {key : Bytes} {p : Nat} (watches : s.Watches key p) :
    p < s.next ∧ Kept (s.slots (s.records p).owner) key := by
  rcases sound.table with none' | ⟨t, m, holds, owned⟩
  · exact absurd watches (not_watches_of_none none' key p)
  · obtain ⟨q, same, inside, kept⟩ := owned key _ ((watches_iff holds owned key p).mp watches)
    cases same
    exact ⟨inside, kept⟩

theorem Kept.conn {slot : Slot} {key : Bytes} (kept : Kept slot key) : slot.conn ≠ none := by
  obtain ⟨hostaddr, rfl | rfl⟩ := kept
  · exact Option.some_ne_none _
  · exact Option.some_ne_none _

theorem Sound.not_dangles (sound : Sound s) : ¬ s.Dangles := by
  rintro ⟨key, p, watches, gone⟩
  exact (sound.kept watches).2.conn gone

theorem start_sound : Sound State.start :=
  ⟨.inl rfl, fun c conn closing => by cases closing⟩

/-- A connection goes on. -/
theorem put_sound (sound : Sound s) (c : Nat) (slot : Slot)
    (keeps : ∀ key p, s.Watches key p → (s.records p).owner = c → Kept slot key)
    (ready : ∀ conn, slot = .closing conn → s.table.ht ≠ none) : Sound (s.put c slot) := by
  constructor
  · rcases sound.table with none' | ⟨t, m, holds, owned⟩
    · exact .inl none'
    · refine .inr ⟨t, m, holds, ?_⟩
      intro key data here
      obtain ⟨p, rfl, inside, kept⟩ := owned key data here
      refine ⟨p, rfl, inside, ?_⟩
      show Kept (Function.update s.slots c slot (s.records p).owner) key
      by_cases same : (s.records p).owner = c
      · rw [same, Function.update_self]
        exact keeps key p ((watches_iff holds owned key p).mpr here) same
      · rw [Function.update_of_ne same]
        exact kept
  · intro d conn closing
    change Function.update s.slots c slot d = _ at closing
    by_cases same : d = c
    · rw [same, Function.update_self] at closing
      exact ready conn closing
    · rw [Function.update_of_ne same] at closing
      exact sound.ready d conn closing

/-- A connection that no record belongs to goes on. -/
theorem put_sound_of_not_owns (sound : Sound s) {c : Nat} (free : ¬ s.Owns c) (slot : Slot)
    (ready : ∀ conn, slot ≠ .closing conn) : Sound (s.put c slot) :=
  put_sound sound c slot (fun key p watches owner => absurd ⟨key, p, watches, owner⟩ free)
    fun conn closing => absurd closing (ready conn)

theorem Sound.not_owns (sound : Sound s) {c : Nat} (unkept : ∀ key, ¬ Kept (s.slots c) key) :
    ¬ s.Owns c := by
  rintro ⟨key, p, watches, rfl⟩
  exact unkept key (sound.kept watches).2

theorem watchdogInit_holds (sound : Sound s) :
    ∃ t m, Holds (watchdogInit s.table) t m ∧ Owned s m := by
  rcases sound.table with none' | ⟨t, m, holds, owned⟩
  · refine ⟨htInit 256, fun _ => none, ?_, ?_⟩
    · rw [watchdogInit, none']
      exact shtInit_holds (by decide) true
    · intro key data impossible
      cases impossible
  · refine ⟨t, m, ?_, owned⟩
    rw [watchdogInit, holds.table]
    exact holds

/-- `watchdog` succeeds, and keeps what the records point to. -/
theorem watchdog_sound (sound : Sound s) {c : Nat} {conn : Conn} (live : s.slots c = .live conn)
    (stage : Bytes) (now : Int) (malloc insert : Bool) :
    ∃ s', (∀ depth, watchdog (depth + 2) s c conn stage now malloc insert = some s') ∧ Sound s' ∧
      s'.slots = s.slots ∧ s'.table.ht ≠ none := by
  obtain ⟨t, m, holds, owned⟩ := watchdogInit_holds sound
  have filled {s' : State} {t' : Ht (ShtRecord Nat)} {m' : PtrMap Nat} (slots : s'.slots = s.slots)
      (holds' : Holds s'.table t' m') (owned' : Owned s' m') :
      Sound s' ∧ s'.slots = s.slots ∧ s'.table.ht ≠ none := by
    have there : s'.table.ht ≠ none := by
      rw [holds'.table]
      exact Option.some_ne_none _
    exact ⟨⟨.inr ⟨t', m', holds', owned'⟩, fun _ _ _ => there⟩, slots, there⟩
  have untouched : Sound { s with table := watchdogInit s.table } ∧ s.slots = s.slots ∧
      (watchdogInit s.table).ht ≠ none := filled rfl holds owned
  obtain ⟨id, hostaddr⟩ := conn
  cases id with
  | none => exact ⟨_, fun _ => rfl, untouched⟩
  | some id =>
      cases hostaddr with
      | none => exact ⟨_, fun _ => rfl, untouched⟩
      | some hostaddr =>
          unfold watchdog
          simp only [shtLookup_spec holds, Option.bind_some]
          cases here : m id with
          | none =>
              cases malloc with
              | false => exact ⟨_, fun _ => rfl, untouched⟩
              | true =>
                  obtain ⟨table, t', inserted, holds', _⟩ :=
                    shtInsert_spec holds id (some s.next) insert
                  refine ⟨{ s with
                    table := table
                    records := Function.update s.records s.next ⟨c, stage, now, now⟩
                    next := s.next + 1 }, fun depth => ?_, filled rfl holds' ?_⟩
                  · simp only [Option.join_none, Bool.not_true, Bool.false_eq_true, if_false,
                      inserted depth, Option.map_some]
                  · intro key data found
                    have before : m key = some data ∨ key = id ∧ data = some s.next := by
                      unfold mapInsert at found
                      split at found
                      · by_cases same : key = id
                        · simp only [same, Function.update_self] at found
                          exact .inr ⟨same, (Option.some.inj found).symm⟩
                        · simp only [Function.update_of_ne same] at found
                          exact .inl found
                      · exact .inl found
                    rcases before with old | ⟨rfl, rfl⟩
                    · obtain ⟨p, rfl, inside, kept⟩ := owned key data old
                      refine ⟨p, rfl, Nat.lt_succ_of_lt inside, ?_⟩
                      simp only [Function.update_of_ne (Nat.ne_of_lt inside)]
                      exact kept
                    · refine ⟨s.next, rfl, Nat.lt_succ_self _, hostaddr, .inl ?_⟩
                      simp only [Function.update_self]
                      exact live
          | some data =>
              obtain ⟨p, rfl, inside, kept⟩ := owned id data here
              refine ⟨_, fun depth => rfl, filled rfl holds ?_⟩
              intro key data found
              obtain ⟨q, rfl, inside', kept'⟩ := owned key data found
              refine ⟨q, rfl, inside', ?_⟩
              by_cases same : q = p
              · rw [same] at kept' ⊢
                simp only [Function.update_self]
                exact kept'
              · simp only [Function.update_of_ne same]
                exact kept'

/-- `watchdog_close` succeeds, and no record is left that has strings of the connection. -/
theorem watchdogClose_sound (sound : Sound s) {c : Nat} {conn : Conn}
    (closing : s.slots c = .closing conn) :
    ∃ s', watchdogClose s conn = some s' ∧ Sound s' ∧ s'.slots = s.slots ∧ ¬ s'.Owns c := by
  obtain ⟨id, hostaddr⟩ := conn
  cases id with
  | none =>
      refine ⟨s, rfl, sound, rfl, sound.not_owns ?_⟩
      rintro key ⟨hostaddr', live | closing'⟩
      · rw [closing] at live
        cases live
      · rw [closing] at closing'
        cases closing'
  | some id =>
      rcases sound.table with none' | ⟨t, m, holds, owned⟩
      · exact absurd none' (sound.ready c _ closing)
      · obtain ⟨table, t', removed, holds', _⟩ := shtRemove_spec holds id
        have owned' : Owned { s with table := table } (Function.update m id none) := by
          intro key data found
          by_cases same : key = id
          · rw [same, Function.update_self] at found
            cases found
          · rw [Function.update_of_ne same] at found
            exact owned key data found
        have there : table.ht ≠ none := by
          rw [holds'.table]
          exact Option.some_ne_none _
        have sound' : Sound { s with table := table } :=
          ⟨.inr ⟨t', _, holds', owned'⟩, fun _ _ _ => there⟩
        refine ⟨{ s with table := table }, ?_, sound', rfl, ?_⟩
        · simp only [watchdogClose, removed, Option.map_some]
        · -- a record of this connection has its id for a key, and that key is gone
          rintro ⟨key, p, watches, rfl⟩
          obtain ⟨hostaddr', live | closing'⟩ := (sound'.kept watches).2
          · exact absurd (closing.symm.trans live) (by simp)
          · have same : id = key := by
              have := closing.symm.trans closing'
              simp only [Slot.closing.injEq, Conn.mk.injEq, Option.some.injEq] at this
              exact this.1
            have found := (watches_iff holds' owned' key p).mp watches
            rw [← same, Function.update_self] at found
            cases found

/-- One callback keeps what the records point to, unless it gives up a connection that is
watched. -/
theorem step_sound (sound : Sound s) {depth : Nat} {event : Event} {s' : State}
    (stepped : step (depth + 2) s event = some s') (free : ∀ c, event = .fail c → ¬ s.Owns c) :
    Sound s' := by
  cases event with
  | create c =>
      simp only [step] at stepped
      split at stepped
      · rename_i unborn
        cases stepped
        refine put_sound_of_not_owns sound (sound.not_owns ?_) _ (by simp)
        rintro key ⟨hostaddr, live | closing⟩
        · rw [unborn] at live; cases live
        · rw [unborn] at closing; cases closing
      · cases stepped
  | identify c id =>
      simp only [step] at stepped
      split at stepped
      · rename_i nameless
        cases stepped
        refine put_sound_of_not_owns sound (sound.not_owns ?_) _ (by simp)
        rintro key ⟨hostaddr, live | closing⟩
        · rw [nameless] at live; cases live
        · rw [nameless] at closing; cases closing
      · cases stepped
  | address c hostaddr =>
      simp only [step] at stepped
      split at stepped
      · rename_i nowhere
        cases stepped
        refine put_sound_of_not_owns sound (sound.not_owns ?_) _ (by simp)
        rintro key ⟨hostaddr, live | closing⟩
        · rw [nowhere] at live; cases live
        · rw [nowhere] at closing; cases closing
      · cases stepped
  | stage c name now malloc insert =>
      simp only [step] at stepped
      split at stepped
      · rename_i conn live
        obtain ⟨s'', done, sound'', _⟩ := watchdog_sound sound live name now malloc insert
        rw [done depth] at stepped
        cases stepped
        exact sound''
      · cases stepped
  | close c name now malloc insert =>
      simp only [step] at stepped
      split at stepped
      · rename_i conn live
        obtain ⟨s'', done, sound'', slots, there⟩ := watchdog_sound sound live name now malloc insert
        rw [done depth] at stepped
        cases stepped
        refine put_sound sound'' c _ ?_ fun _ _ => there
        rintro key p watches rfl
        obtain ⟨hostaddr, live' | closing⟩ := (sound''.kept watches).2
        · rw [slots, live] at live'
          cases live'
          exact ⟨hostaddr, .inr rfl⟩
        · rw [slots, live] at closing
          cases closing
      · cases stepped
  | unwatch c =>
      simp only [step] at stepped
      split at stepped
      · rename_i conn closing
        obtain ⟨s'', done, sound'', _, unowned⟩ := watchdogClose_sound sound closing
        rw [done] at stepped
        cases stepped
        exact put_sound_of_not_owns sound'' unowned _ (by simp)
      · cases stepped
  | delete c =>
      simp only [step] at stepped
      split at stepped
      · rename_i conn unwatched
        cases stepped
        refine put_sound_of_not_owns sound (sound.not_owns ?_) _ (by simp)
        rintro key ⟨hostaddr, live | closing⟩
        · rw [unwatched] at live; cases live
        · rw [unwatched] at closing; cases closing
      · cases stepped
  | fail c =>
      simp only [step] at stepped
      split at stepped
      · cases stepped
        exact put_sound_of_not_owns sound (free c rfl) _ (by simp)
      · cases stepped

/-- The record of a connection that is given up dangles. -/
theorem fail_dangles {depth c : Nat} {s' : State} (owns : s.Owns c)
    (stepped : step depth s (.fail c) = some s') : s'.Dangles := by
  simp only [step] at stepped
  split at stepped
  · cases stepped
    obtain ⟨key, p, watches, owner⟩ := owns
    refine ⟨key, p, watches, ?_⟩
    show (Function.update s.slots c .deleted (s.records p).owner).conn = none
    rw [owner, Function.update_self]
    rfl
  · cases stepped

end Sound

/-! ## Runs -/

section Runs
variable {depth : Nat}

/-- What a state before one of the events has to be like. -/
def Each (depth : Nat) (P : State → Event → Prop) (events : List Event) : Prop :=
  ∀ front event back s, events = front ++ event :: back → run depth .start front = some s → P s event

theorem run_append (front back : List Event) : ∀ s,
    run depth s (front ++ back) = (run depth s front).bind fun s' => run depth s' back := by
  induction front with
  | nil => intro s; rfl
  | cons event front ih =>
      intro s
      rw [List.cons_append, run, run]
      cases step depth s event with
      | none => rfl
      | some s' => exact ih s'

/-- No connection is given up that is watched. -/
def GivesUp (s : State) (event : Event) : Prop := ∃ c, event = .fail c ∧ s.Owns c

theorem run_sound {events : List Event} (each : Each (depth + 2) (fun s e => ¬ GivesUp s e) events) :
    ∀ s, run (depth + 2) .start events = some s → Sound s := by
  induction events using List.reverseRecOn with
  | nil =>
      rintro s ⟨⟩
      exact start_sound
  | append_singleton front event ih =>
      intro s ran
      rw [run_append] at ran
      obtain ⟨s', before, after⟩ := Option.bind_eq_some_iff.mp ran
      have sound := ih (fun front' event' back s'' split ran'' =>
        each front' event' (back ++ [event]) s'' (by rw [split]; simp) ran'') s' before
      obtain ⟨s'', stepped, same⟩ := Option.bind_eq_some_iff.mp after
      cases same
      refine step_sound sound stepped fun c failed owns => ?_
      exact each front event [] s' rfl before ⟨c, failed, owns⟩

/-- Two connections, of which the second one fails before it has an address. -/
def sampleEvents : List Event :=
  [.create 0, .identify 0 [49], .create 1, .address 0 [58], .identify 1 [50], .stage 0 [104] 5 true true,
    .fail 1, .close 0 [99] 9 true true, .unwatch 0, .delete 0]

end Runs

/-! ## What is logged -/

section Check
variable {s : State} {t : Ht (ShtRecord Nat)} {m : PtrMap Nat} {timeout now : Int}

/-- What should be logged of a record under its key. -/
def reportOf (timeout now : Int) (s : State) (sr : ShtRecord Nat) : Option Report :=
  sr.data.bind fun p =>
    let wd := s.records p
    if now - wd.received ≤ timeout then none
    else
      some ⟨some sr.key, wd.stage, (s.slots wd.owner).conn.bind Conn.hostaddr, now - wd.received,
        now - wd.instage⟩

/-- A connection that is watched for longer than the timeout. -/
def Slow (timeout now : Int) (s : State) (r : Report) : Prop :=
  ∃ key p, s.Watches key p ∧ reportOf timeout now s ⟨key, some p⟩ = some r

theorem checkAll_eq (l : List (ShtRecord Nat))
    (kept : ∀ sr ∈ l, ∃ p, sr.data = some p ∧ Kept (s.slots (s.records p).owner) sr.key) :
    checkAll timeout now s (l.filterMap ShtRecord.data) = some (l.filterMap (reportOf timeout now s)) := by
  induction l with
  | nil => rfl
  | cons sr l ih =>
      have rest := ih fun sr member => kept sr (List.mem_cons_of_mem _ member)
      obtain ⟨p, data, owner⟩ := kept sr List.mem_cons_self
      have conn : ∃ hostaddr, (s.slots (s.records p).owner).conn = some ⟨some sr.key, some hostaddr⟩ := by
        obtain ⟨hostaddr, live | closing⟩ := owner
        · exact ⟨hostaddr, by rw [live]; rfl⟩
        · exact ⟨hostaddr, by rw [closing]; rfl⟩
      obtain ⟨hostaddr, conn⟩ := conn
      rw [List.filterMap_cons_some data, checkAll]
      by_cases recent : now - (s.records p).received ≤ timeout
      · have silent : reportOf timeout now s sr = none := by
          simp only [reportOf, data, Option.bind_some, if_pos recent]
        rw [List.filterMap_cons_none silent]
        simp only [if_pos recent]
        exact rest
      · have logged : reportOf timeout now s sr = some ⟨some sr.key, (s.records p).stage, some hostaddr,
            now - (s.records p).received, now - (s.records p).instage⟩ := by
          simp only [reportOf, data, Option.bind_some, if_neg recent, conn]
        rw [List.filterMap_cons_some logged]
        simp only [if_neg recent, conn, Option.bind_some, rest, Option.map_some]

theorem reportOf_id {sr : ShtRecord Nat} {r : Report} (logged : reportOf timeout now s sr = some r) :
    r.id = some sr.key := by
  unfold reportOf at logged
  obtain ⟨p, _, here⟩ := Option.bind_eq_some_iff.mp logged
  simp only [] at here
  split at here
  · cases here
  · cases here
    rfl

/-- What `watchdog_check` logs of a table whose records point to connections that are
there: each slow connection once, or nothing where the chain at `ht_head` is empty. -/
theorem watchdogCheck_spec (sound : Sound s) (table : s.table.ht = some t) (timeout now : Int) :
    ∃ reports,
      (∀ fuel, (htWalk t).length < fuel → watchdogCheck fuel timeout now s = some reports) ∧
      (t.records = 0 ∨ t.table t.head ≠ [] →
        (reports.map Report.id).Nodup ∧ ∀ r, r ∈ reports ↔ Slow timeout now s r) ∧
      (¬ (t.records = 0 ∨ t.table t.head ≠ []) → reports = []) := by
  have there : (watchdogInit s.table).ht = some t := by
    rw [watchdogInit, table]
    exact table
  rcases sound.table with none' | ⟨t', m, holds, owned⟩
  · rw [table] at none'
    cases none'
  · obtain rfl : t = t' := by
      have := holds.table
      rw [table] at this
      exact Option.some.inj this
    have placed := holds.balanced.toPlaced
    by_cases headed : t.records = 0 ∨ t.table t.head ≠ []
    · have kept : ∀ sr ∈ htWalk t, ∃ p, sr.data = some p ∧ Kept (s.slots (s.records p).owner) sr.key := by
        intro sr member
        obtain ⟨p, data, _, owner⟩ := owned sr.key sr.data ((holds.content sr).mp member)
        exact ⟨p, data, owner⟩
      refine ⟨(htWalk t).filterMap (reportOf timeout now s), fun fuel enough => ?_,
        fun _ => ⟨?_, fun r => ?_⟩, fun headless => absurd headed headless⟩
      · rw [watchdogCheck, there, Option.bind_some, shtDrain_start placed enough, Option.bind_some,
          if_pos headed, stored, checkAll_eq _ kept]
      · apply List.pairwise_map.mpr
        refine (placed.walk_distinct shtOps_lawful).filterMap _ ?_
        intro sr sr' apart r logged r' logged' same
        rw [reportOf_id logged, reportOf_id logged'] at same
        rw [(matching_iff sr.key sr.data sr').mpr (Option.some.inj same).symm] at apart
        cases apart
      · rw [List.mem_filterMap]
        constructor
        · rintro ⟨sr, member, logged⟩
          obtain ⟨p, data, _⟩ := kept sr member
          refine ⟨sr.key, p, (watches_iff holds owned _ _).mpr ?_, ?_⟩
          · rw [← data]
            exact (holds.content sr).mp member
          · rw [← data]
            exact logged
        · rintro ⟨key, p, watches, logged⟩
          exact ⟨⟨key, some p⟩, (holds.content _).mpr ((watches_iff holds owned key p).mp watches), logged⟩
    · refine ⟨[], fun fuel enough => ?_, fun head => absurd head headed, fun _ => rfl⟩
      rw [watchdogCheck, there, Option.bind_some, shtDrain_start placed enough, Option.bind_some,
        if_neg headed]
      rfl

end Check

end Mopher.Watchdog
