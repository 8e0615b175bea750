import Mopher.Hitlist
import Mopher.Lib.PartialRun

/-!
# One hit list, several daemons

Daemons that share an SQL database count hits on one record.  A lookup is two
steps, the read by `dbt_db_get` and the transaction of `sql_db_set`, and
`hl_mutex` keeps the lookups of one daemon apart, not those of two.  A lookup
that found the record adds one to what is stored by then.  A lookup that found
none stores the number one, and if the record was created in between, the hits
that it held are gone.
-/

set_option autoImplicit false

namespace Mopher

/-- The list creates missing records, counts, and stores what it counted. -/
structure Hitlist.Counting (hl : Hitlist) : Prop where
  create : hl.create ≠ 0
  update : hl.update ≠ 0
  count : hl.count ≠ 0

/-- The row of the key, and for each daemon that is between its two steps what it
read and the call. -/
structure Shared (D : Type) where
  row : Option HitRecord
  pending : D → Option (Option HitRecord × HitCall)

/-- The two steps of a lookup. -/
inductive SharedStep (D : Type) where
  | get (daemon : D) (call : HitCall)
  | set (daemon : D)

/-- The record that a lookup counts on: the one it read, or the new one. -/
def lookupRecord (read : Option HitRecord) : HitRecord := read.getD ⟨some 0, some 0⟩

section Steps
variable {D : Type} [DecidableEq D] (hl : D → Hitlist)

/-- `none` is a step that cannot be made: the mutex is taken, the symbols of the
key are not set, or there is nothing to store. -/
def sharedStep (s : Shared D) : SharedStep D → Option (Shared D)
  | .get daemon call =>
      if call.keyed = true ∧ s.pending daemon = none then
        some { s with pending := Function.update s.pending daemon (some (s.row, call)) }
      else none
  | .set daemon =>
      match s.pending daemon with
      | none => none
      | some (read, call) =>
          some {
            row := (hitlistHit (hl daemon) true read.isSome s.row (lookupRecord read) call).2
            pending := Function.update s.pending daemon none }

def sharedRun (s : Shared D) (steps : List (SharedStep D)) : Option (Shared D) :=
  PartialRun.run (sharedStep hl) s steps

/-- Nothing is under way. -/
def idle (row : Option HitRecord) : Shared D := ⟨row, fun _ => none⟩

/-- The daemon is about to store the record that it did not find, and the row is
there by now. -/
def LateCreation (s : Shared D) (daemon : D) : Prop :=
  (∃ call, s.pending daemon = some (none, call)) ∧ s.row.isSome = true

/-- The step is not one that is late. -/
def OnTime (s : Shared D) (step : SharedStep D) : Prop :=
  ∀ daemon, step = .set daemon → ¬ LateCreation s daemon

/-- No lookup of the schedule is late. -/
def NoLateCreation (s : Shared D) (steps : List (SharedStep D)) : Prop :=
  PartialRun.EachStep (sharedStep hl) OnTime s steps

end Steps

/-- The number of lookups of a schedule: each starts with its read. -/
def lookups {D : Type} : List (SharedStep D) → Nat
  | [] => 0
  | .get _ _ :: rest => lookups rest + 1
  | .set _ :: rest => lookups rest

/-- The stored value, 0 if there is no row. -/
def storedValue (row : Option HitRecord) : Int := (row.bind HitRecord.value).getD 0

/-- A row as the program writes it has no null fields. -/
def Filled (row : Option HitRecord) : Prop :=
  ∀ record, row = some record → ∃ value expire, record = ⟨some value, some expire⟩

/-! ## One lookup -/

section Lookup
variable {hl : Hitlist}

/-- Both steps without another in between are `hitlist_lookup`. -/
theorem hitlistLookup_eq_steps (counting : hl.Counting) (row : Option HitRecord) {call : HitCall}
    (keyed : call.keyed = true) :
    hitlistLookup hl true row call = hitlistHit hl true row.isSome row (lookupRecord row) call := by
  unfold hitlistLookup
  rw [keyed]
  cases row with
  | none => simp only [Bool.not_true, Bool.false_eq_true, if_false, if_neg counting.create]; rfl
  | some record => rfl

theorem hitlistHit_stored (counting : hl.Counting) (found : Bool) (row : Option HitRecord)
    (value expire : Int) (call : HitCall) :
    (hitlistHit hl true found row ⟨some value, some expire⟩ call).2 =
      some (hitlistStore true found row (value + 1) 1 (hitlistExpire hl call.now expire).1
        (hitlistExpire hl call.now expire).2) := by
  have addition : hitlistAddition hl call.attrs = .ok 1 := by
    unfold hitlistAddition
    rw [if_pos counting.count]
  simp only [hitlistHit, addition, if_neg counting.update]

/-- A lookup that found the record adds one to the row that is there by then. -/
theorem storedValue_found (counting : hl.Counting) {row : Option HitRecord} (filled : Filled row)
    (value expire : Int) (call : HitCall) :
    ∃ value' expire', (hitlistHit hl true true row ⟨some value, some expire⟩ call).2 =
        some ⟨some value', some expire'⟩ ∧ value' = storedValue row + 1 := by
  rw [hitlistHit_stored counting]
  cases row with
  | none => exact ⟨1, _, rfl, rfl⟩
  | some record =>
      obtain ⟨stored, until', rfl⟩ := filled record rfl
      exact ⟨stored + 1, _, rfl, rfl⟩

/-- A lookup that found none stores one. -/
theorem storedValue_created (counting : hl.Counting) (row : Option HitRecord) (call : HitCall) :
    ∃ expire', (hitlistHit hl true false row ⟨some 0, some 0⟩ call).2 =
      some ⟨some 1, some expire'⟩ := by
  rw [hitlistHit_stored counting]
  cases row with
  | none => exact ⟨_, rfl⟩
  | some record => exact ⟨_, rfl⟩

end Lookup

/-! ## The invariant -/

/-- What holds at every point of a schedule.  A lookup that found no record can
only be late for a record that was created on the way, which has a hit. -/
structure SharedInv {D : Type} (s : Shared D) : Prop where
  row : Filled s.row
  reads : ∀ daemon read call, s.pending daemon = some (read, call) → Filled read
  created : (∀ daemon call, s.pending daemon ≠ some (none, call)) ∧ s.row.isSome = true ∨
    (s.row = none ∨ 1 ≤ storedValue s.row)

section Invariant
variable {D : Type} [DecidableEq D] {hl : D → Hitlist}

omit [DecidableEq D] in
theorem sharedInv_idle {row : Option HitRecord} (filled : Filled row) :
    SharedInv (idle row : Shared D) where
  row := filled
  reads _ _ _ impossible := by cases impossible
  created := by
    cases row with
    | none => exact .inr (.inl rfl)
    | some record =>
        refine .inl ⟨?_, rfl⟩
        intro daemon call impossible
        cases impossible

theorem sharedInv_get {s : Shared D} (inv : SharedInv s) (daemon : D) (call : HitCall) :
    SharedInv { s with pending := Function.update s.pending daemon (some (s.row, call)) } where
  row := inv.row
  reads := by
    intro other read call' waiting
    by_cases same : other = daemon
    · subst same
      simp only [Function.update_self, Option.some.injEq, Prod.mk.injEq] at waiting
      rw [← waiting.1]
      exact inv.row
    · simp only [Function.update_of_ne same] at waiting
      exact inv.reads other read call' waiting
  created := by
    rcases inv.created with ⟨present, row⟩ | positive
    · refine .inl ⟨?_, row⟩
      intro other call' waiting
      by_cases same : other = daemon
      · subst same
        simp only [Function.update_self, Option.some.injEq, Prod.mk.injEq] at waiting
        rw [waiting.1] at row
        cases row
      · simp only [Function.update_of_ne same] at waiting
        exact present other call' waiting
    · exact .inr positive

omit [DecidableEq D] in
/-- What a lookup stores: one more than the row has, or one when it is late. -/
theorem stored_cases {s : Shared D} (inv : SharedInv s) (counting : ∀ daemon, (hl daemon).Counting)
    {daemon : D} {read : Option HitRecord} {call : HitCall}
    (waiting : s.pending daemon = some (read, call)) :
    ∃ value expire,
      (hitlistHit (hl daemon) true read.isSome s.row (lookupRecord read) call).2 =
        some ⟨some value, some expire⟩ ∧
      (¬ LateCreation s daemon → value = storedValue s.row + 1) ∧
      (LateCreation s daemon → value = 1) := by
  cases read with
  | none =>
      obtain ⟨expire, stored⟩ := storedValue_created (counting daemon) s.row call
      refine ⟨1, expire, stored, ?_, fun _ => rfl⟩
      intro intime
      cases row : s.row with
      | none => rfl
      | some record => exact (intime ⟨⟨call, waiting⟩, by rw [row]; rfl⟩).elim
  | some record =>
      obtain ⟨value, expire, rfl⟩ := inv.reads daemon _ call waiting record rfl
      obtain ⟨value', expire', stored, one⟩ :=
        storedValue_found (counting daemon) inv.row value expire call
      refine ⟨value', expire', stored, fun _ => one, ?_⟩
      rintro ⟨⟨call', late⟩, _⟩
      rw [waiting] at late
      cases late

theorem sharedInv_set {s : Shared D} (inv : SharedInv s) {daemon : D} {value expire : Int}
    (positive : s.row = none ∨ 1 ≤ storedValue s.row → 1 ≤ value) :
    SharedInv ⟨some ⟨some value, some expire⟩, Function.update s.pending daemon none⟩ := by
  have left (other : D) {open' : Option HitRecord × HitCall}
      (waiting : Function.update s.pending daemon none other = some open') :
      s.pending other = some open' := by
    by_cases same : other = daemon
    · subst same
      simp at waiting
    · rwa [Function.update_of_ne same] at waiting
  constructor
  · rintro record ⟨⟩
    exact ⟨value, expire, rfl⟩
  · intro other read call waiting
    exact inv.reads other read call (left other waiting)
  · rcases inv.created with ⟨present, _⟩ | created
    · refine .inl ⟨?_, rfl⟩
      intro other call waiting
      exact present other call (left other waiting)
    · exact .inr (.inr (positive created))

omit [DecidableEq D] in
theorem lateCreation_positive {s : Shared D} (inv : SharedInv s) {daemon : D}
    (late : LateCreation s daemon) : 1 ≤ storedValue s.row := by
  obtain ⟨⟨call, waiting⟩, row⟩ := late
  rcases inv.created with ⟨present, _⟩ | created
  · exact (present daemon call waiting).elim
  · rcases created with absent | positive
    · rw [absent] at row
      cases row
    · exact positive

end Invariant

/-! ## Counting -/

section Counting
variable {D : Type} [DecidableEq D] [Fintype D] {hl : D → Hitlist}

/-- The lookups that are between their steps. -/
def underWay (s : Shared D) : Nat :=
  (Finset.univ.filter fun daemon => (s.pending daemon).isSome = true).card

theorem underWay_get (row row' : Option HitRecord)
    {pending : D → Option (Option HitRecord × HitCall)} {daemon : D}
    (free : pending daemon = none) (lookup : Option HitRecord × HitCall) :
    underWay ⟨row', Function.update pending daemon (some lookup)⟩ =
      underWay ⟨row, pending⟩ + 1 := by
  have grown : (Finset.univ.filter fun other =>
        (Function.update pending daemon (some lookup) other).isSome = true) =
      insert daemon (Finset.univ.filter fun other => (pending other).isSome = true) := by
    ext other
    by_cases same : other = daemon
    · subst same
      simp
    · simp [same]
  have fresh : daemon ∉ Finset.univ.filter fun other => (pending other).isSome = true := by
    simp [free]
  unfold underWay
  rw [grown, Finset.card_insert_of_notMem fresh]

theorem underWay_set (row row' : Option HitRecord)
    {pending : D → Option (Option HitRecord × HitCall)} {daemon : D}
    {lookup : Option HitRecord × HitCall} (waiting : pending daemon = some lookup) :
    underWay ⟨row', Function.update pending daemon none⟩ + 1 = underWay ⟨row, pending⟩ := by
  have free : Function.update pending daemon none daemon = none := Function.update_self ..
  have again : Function.update (Function.update pending daemon none) daemon (some lookup) =
      pending := by
    rw [Function.update_idem, ← waiting, Function.update_eq_self]
  rw [← underWay_get row' row free lookup, again]

omit [DecidableEq D] in
theorem underWay_idle (s : Shared D) (done : ∀ daemon, s.pending daemon = none) :
    underWay s = 0 := by
  unfold underWay
  simp [done]

/-- The hits that are stored and those that are under way. -/
def hits (s : Shared D) : Int := storedValue s.row + underWay s

/-- A step keeps the invariant and adds the lookup that it starts to the hits,
unless it is late: then hits are lost. -/
theorem sharedStep_hits (counting : ∀ daemon, (hl daemon).Counting) {s next : Shared D}
    {step : SharedStep D} (inv : SharedInv s) (stepped : sharedStep hl s step = some next) :
    SharedInv next ∧
      (OnTime s step → hits next = hits s + lookups [step]) ∧
      (¬ OnTime s step → hits next < hits s) := by
  cases step with
  | get daemon call =>
      simp only [sharedStep] at stepped
      split at stepped
      · rename_i free
        cases stepped
        refine ⟨sharedInv_get inv daemon call, ?_, ?_⟩
        · intro _
          have more : underWay { s with
              pending := Function.update s.pending daemon (some (s.row, call)) } = underWay s + 1 :=
            underWay_get s.row s.row free.2 (s.row, call)
          unfold hits
          rw [more]
          simp only [lookups]
          push_cast
          omega
        · intro late
          exact (late fun _ impossible => by cases impossible).elim
      · cases stepped
  | set daemon =>
      simp only [sharedStep] at stepped
      split at stepped
      · cases stepped
      · rename_i read call waiting
        cases stepped
        obtain ⟨value, expire, stored, onTime, tooLate⟩ := stored_cases inv counting waiting
        rw [stored]
        have fewer : underWay ⟨some ⟨some value, some expire⟩, Function.update s.pending daemon none⟩
            + 1 = underWay s := underWay_set s.row _ waiting
        have unit : storedValue (some ⟨some value, some expire⟩) = value := rfl
        refine ⟨sharedInv_set inv ?_, ?_, ?_⟩
        · intro positive
          by_cases late : LateCreation s daemon
          · rw [tooLate late]
          · rw [onTime late]
            rcases positive with absent | positive
            · rw [absent]
              decide
            · omega
        · intro never
          have one := onTime (never daemon rfl)
          unfold hits
          rw [unit]
          simp only [lookups]
          omega
        · intro notOnTime
          have late : LateCreation s daemon := by
            by_contra intime
            exact notOnTime fun other same => by cases same; exact intime
          have one := tooLate late
          have positive := lateCreation_positive inv late
          unfold hits
          rw [unit]
          omega

omit [DecidableEq D] [Fintype D] in
theorem lookups_cons (step : SharedStep D) (rest : List (SharedStep D)) :
    lookups (step :: rest) = lookups [step] + lookups rest := by
  cases step with
  | get daemon call => simp only [lookups]; omega
  | set daemon => simp only [lookups]; omega

/-- Over a schedule the hits grow by its lookups exactly when none is late, and
they never grow by more. -/
theorem sharedRun_hits (counting : ∀ daemon, (hl daemon).Counting) (steps : List (SharedStep D)) :
    ∀ {s final : Shared D}, SharedInv s → sharedRun hl s steps = some final →
      hits final ≤ hits s + lookups steps ∧
        (hits final = hits s + lookups steps ↔ NoLateCreation hl s steps) := by
  induction steps with
  | nil =>
      intro s final _ run
      cases run
      exact ⟨by simp [lookups], iff_of_true (by simp [lookups]) (PartialRun.eachStep_nil _ _ s)⟩
  | cons step rest ih =>
      intro s final inv run
      obtain ⟨next, stepped, run⟩ := Option.bind_eq_some_iff.mp run
      obtain ⟨nextInv, onTime, tooLate⟩ := sharedStep_hits counting inv stepped
      obtain ⟨bound, exact'⟩ := ih nextInv run
      rw [NoLateCreation, PartialRun.eachStep_cons _ stepped, lookups_cons]
      push_cast
      by_cases now : OnTime s step
      · have kept := onTime now
        refine ⟨by omega, ?_⟩
        constructor
        · intro total
          exact ⟨now, exact'.mp (by omega)⟩
        · rintro ⟨_, later⟩
          have total := exact'.mpr later
          omega
      · have lost := tooLate now
        refine ⟨by omega, iff_of_false (by omega) ?_⟩
        rintro ⟨intime, _⟩
        exact now intime

/-- When every lookup has stored, the value is the one before plus the number of
lookups exactly when no lookup that found no record stores after the record was
created. -/
theorem no_hit_is_lost_iff (counting : ∀ daemon, (hl daemon).Counting)
    (initial : Option (Int × Int)) (steps : List (SharedStep D)) {final : Shared D}
    (run : sharedRun hl (idle (initial.map fun r => ⟨some r.1, some r.2⟩)) steps = some final)
    (done : ∀ daemon, final.pending daemon = none) :
    storedValue final.row = (initial.map Prod.fst).getD 0 + lookups steps ↔
      NoLateCreation hl (idle (initial.map fun r => ⟨some r.1, some r.2⟩)) steps := by
  have filled : Filled (initial.map fun r => (⟨some r.1, some r.2⟩ : HitRecord)) := by
    intro record found
    obtain ⟨r, _, rfl⟩ := Option.map_eq_some_iff.mp found
    exact ⟨r.1, r.2, rfl⟩
  have before : hits (idle (initial.map fun r => ⟨some r.1, some r.2⟩) : Shared D) =
      (initial.map Prod.fst).getD 0 := by
    unfold hits
    rw [underWay_idle _ fun _ => rfl]
    cases initial with
    | none => rfl
    | some r => simp [idle, storedValue]
  have after : hits final = storedValue final.row := by
    unfold hits
    rw [underWay_idle _ done]
    simp
  rw [← (sharedRun_hits counting steps (sharedInv_idle filled) run).2, before, after]

end Counting

/-- A list that counts, with no timeout. -/
def plainHitlist : Hitlist := ⟨1, 1, 1, 0, 0, none⟩

theorem plainHitlist_counting : plainHitlist.Counting := ⟨by decide, by decide, by decide⟩

/-- A hit at time 0, on a mailspec without symbols. -/
def plainHit : HitCall := ⟨0, true, fun _ => none⟩

/-- Two daemons that read the same record of three hits. -/
theorem hits_on_a_record_are_kept :
    ∃ final : Shared Bool, sharedRun (fun _ => plainHitlist) (idle (some ⟨some 3, some intMax⟩))
        [.get false plainHit, .get true plainHit, .set true, .set false] = some final ∧
      (∀ daemon, final.pending daemon = none) ∧ storedValue final.row = 5 ∧
      NoLateCreation (fun _ => plainHitlist) (idle (some ⟨some 3, some intMax⟩))
        [.get false plainHit, .get true plainHit, .set true, .set false] := by
  refine ⟨_, rfl, ?_, rfl, ?_⟩
  · intro daemon
    cases daemon <;> rfl
  · refine (no_hit_is_lost_iff (fun _ => plainHitlist_counting) (some (3, intMax)) _ rfl ?_).mp rfl
    intro daemon
    cases daemon <;> rfl

/-- Two daemons that both find no record: one of the two hits is lost. -/
theorem creation_race_loses_a_hit :
    ∃ final : Shared Bool, sharedRun (fun _ => plainHitlist) (idle none)
        [.get false plainHit, .get true plainHit, .set false, .set true] = some final ∧
      (∀ daemon, final.pending daemon = none) ∧ storedValue final.row = 1 ∧
      lookups [.get false plainHit, .get true plainHit, .set false, .set true] = 2 ∧
      storedValue final.row ≠
        0 + lookups [.get false plainHit, .get true plainHit, .set false, .set true] := by
  refine ⟨_, rfl, ?_, rfl, rfl, by decide⟩
  intro daemon
  cases daemon <;> rfl

end Mopher
