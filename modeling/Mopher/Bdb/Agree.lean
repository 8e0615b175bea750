import Mopher.Bdb.Map

/-!
# Two drivers behind `dbt.c`

`bdb.c` and `memdb.c` are to be exchangeable: the configuration says which of them a table
has.  They are, but for one thing: to delete a record that is not there is an error for
Berkeley DB, and nothing at all for the hash table.
-/

set_option autoImplicit false

namespace Mopher.Bdb

open PartialRun (SameStep)

/-! ## The memory driver is the map -/

section Memdb
variable {beyond : Vp → Nat → UInt8} {scheme : List FieldSpec} {ht : Ht Vp} {stored : Stored}

/-- The table has the packed records of the map. -/
def InMemory (beyond : Vp → Nat → UInt8) (scheme : List FieldSpec) (ht : Ht Vp) (stored : Stored) : Prop :=
  ∃ t : Ht (Packed scheme), ht = t.map Packed.vp ∧ Stores beyond t stored

/-- To delete what is not there changes nothing. -/
theorem mapServe_eq (stored : Stored) (call : MemdbCall) (missing : Int) :
    mapServe (some missing) stored call = some
      ((match call with
        | .get record => (0, stored (keyOf record))
        | .set _ => (0, none)
        | .del record => (if stored (keyOf record) = none then missing else 0, none)), mapStep stored call) := by
  cases call with
  | get record => rfl
  | set record => rfl
  | del record =>
      simp only [mapServe, mapStep]
      by_cases absent : stored (keyOf record) = none
      · have same : Function.update stored (keyOf record) none = stored :=
          Function.update_eq_self_iff.mpr absent.symm
        rw [if_pos absent, if_pos absent, same]
        rfl
      · rw [if_neg absent, if_neg absent]

theorem memdbServe_spec (small : scheme.length ≤ 64) (cfDbtFatalErrors : Bool) (depth : Nat)
    (holds : InMemory beyond scheme ht stored) {call : MemdbCall} (of : OfScheme scheme call.record) :
    SameStep (InMemory beyond scheme) (dbtServe (memdbDriver beyond (depth + 2) scheme) cfDbtFatalErrors ht call)
      (mapServe (some 0) stored call) := by
  obtain ⟨t, rfl, stores⟩ := holds
  obtain ⟨new, stepped, stores'⟩ := memdbStep_stores small stores of
  have step := stepped depth
  rw [mapServe_eq]
  cases call with
  | get record =>
      have got : memdbGet beyond scheme (t.map Packed.vp) record = _ := memdbGet_stores small stores of
      have served : dbtServe (memdbDriver beyond (depth + 2) scheme) cfDbtFatalErrors (t.map Packed.vp) (.get record) =
          some ((0, stored (keyOf record)), t.map Packed.vp) := by
        simp only [dbtServe, dbtDbGet, memdbDriver, got, unlessFatal]
        rfl
      rw [served]
      exact .some ⟨rfl, t, rfl, stores⟩
  | set record =>
      simp only [memdbStep] at step
      have served : dbtServe (memdbDriver beyond (depth + 2) scheme) cfDbtFatalErrors (t.map Packed.vp) (.set record) =
          some ((0, none), new.map Packed.vp) := by
        simp only [dbtServe, dbtDbSet, memdbDriver, step, unlessFatal]
        rfl
      rw [served]
      exact .some ⟨rfl, new, rfl, stores'⟩
  | del record =>
      simp only [memdbStep, Option.some.injEq] at step
      have served : dbtServe (memdbDriver beyond (depth + 2) scheme) cfDbtFatalErrors (t.map Packed.vp) (.del record) =
          some ((0, none), new.map Packed.vp) := by
        simp only [dbtServe, dbtDbDel, memdbDriver, step, unlessFatal]
        rfl
      rw [served]
      refine .some ⟨?_, new, rfl, stores'⟩
      exact congrArg (·, none) (ite_self 0).symm

end Memdb

/-! ## Runs -/

/-- Every deletion finds its record. -/
def DeletesFound (stored : Stored) (calls : List MemdbCall) : Prop :=
  ∀ front record back, calls = front ++ .del record :: back → (front.foldl mapStep stored) (keyOf record) ≠ none

theorem deletesFound_cons (stored : Stored) (call : MemdbCall) (rest : List MemdbCall) :
    DeletesFound stored (call :: rest) ↔
      (∀ record, call = .del record → stored (keyOf record) ≠ none) ∧ DeletesFound (mapStep stored call) rest := by
  constructor
  · intro all
    refine ⟨fun record same => all [] record rest (by rw [same]; rfl), ?_⟩
    intro front record back split
    exact all (call :: front) record back (by rw [split]; rfl)
  · rintro ⟨first, later⟩ front record back split
    cases front with
    | nil =>
        obtain ⟨same, _⟩ := List.cons.inj split
        exact first record same
    | cons other front =>
        obtain ⟨rfl, tail⟩ := List.cons.inj split
        exact later front record back tail

/-- On the map, the answers are the same exactly when nothing is deleted that is not there. -/
theorem map_answers_iff (cfDbtFatalErrors : Bool) (calls : List MemdbCall) : ∀ stored : Stored,
    (PartialRun.answers (mapServe (ifMissing cfDbtFatalErrors)) stored calls).1 =
        (PartialRun.answers (mapServe (some 0)) stored calls).1 ↔ DeletesFound stored calls := by
  induction calls with
  | nil =>
      intro stored
      refine iff_of_true rfl ?_
      intro front record back split
      simp at split
  | cons call rest ih =>
      intro stored
      have lenient := mapServe_eq stored call 0
      rw [deletesFound_cons, PartialRun.answers_cons lenient]
      by_cases fails : ∃ record, call = .del record ∧ stored (keyOf record) = none
      · obtain ⟨record, rfl, absent⟩ := fails
        refine iff_of_false ?_ fun all => all.1 record rfl absent
        cases cfDbtFatalErrors with
        | true =>
            have dies : mapServe (ifMissing true) stored (.del record) = none := by
              rw [mapServe, if_pos absent]
              rfl
            rw [PartialRun.answers_stuck dies]
            intro same
            cases same
        | false =>
            have strict := mapServe_eq stored (.del record) (-1)
            rw [ifMissing, if_neg Bool.false_ne_true, PartialRun.answers_cons strict]
            simp [absent]
      · have strict : mapServe (ifMissing cfDbtFatalErrors) stored call = mapServe (some 0) stored call := by
          cases call with
          | get record => rfl
          | set record => rfl
          | del record =>
              have there : stored (keyOf record) ≠ none := fun absent => fails ⟨record, rfl, absent⟩
              rw [mapServe, mapServe, if_neg there, if_neg there]
        rw [PartialRun.answers_cons (strict.trans lenient), List.cons.injEq, ih]
        simp only [true_and]
        refine ⟨fun later => ⟨?_, later⟩, And.right⟩
        intro record same absent
        exact fails ⟨record, same, absent⟩

/-- With errors that are not fatal, a failed deletion makes no difference to any record. -/
theorem map_records (calls : List MemdbCall) : ∀ stored : Stored,
    (PartialRun.answers (mapServe (some (-1))) stored calls).1.map Prod.snd =
      (PartialRun.answers (mapServe (some 0)) stored calls).1.map Prod.snd := by
  induction calls with
  | nil =>
      intro stored
      rfl
  | cons call rest ih =>
      intro stored
      rw [PartialRun.answers_cons (mapServe_eq stored call (-1)), PartialRun.answers_cons (mapServe_eq stored call 0),
        List.map_cons, List.map_cons, ih]
      cases call with
      | get record => rfl
      | set record => rfl
      | del record => rfl

/-! ## The drivers agree -/

section Drivers
variable {σ : Type} {db : Db185 σ} {view : View σ} {scheme : List FieldSpec} {s : σ}

theorem bdb_answers (btree : Btree db view) (cfDbtFatalErrors : Bool) (small : scheme.length ≤ 64)
    (empty : ∀ key, view.content s key = none) {calls : List MemdbCall}
    (of : ∀ call ∈ calls, OfScheme scheme call.record) :
    (PartialRun.answers (dbtServe (bdbDriver db scheme) cfDbtFatalErrors) s calls).1 =
      (PartialRun.answers (mapServe (ifMissing cfDbtFatalErrors)) (fun _ => none) calls).1 := by
  have holds : Holds scheme (view.content s) fun _ => none := Holds.empty empty
  have same (s : σ) (stored : Stored) (call : MemdbCall) (held : Holds scheme (view.content s) stored)
      (ofCall : OfScheme scheme call.record) :
      SameStep (fun s stored => Holds scheme (view.content s) stored)
        (dbtServe (bdbDriver db scheme) cfDbtFatalErrors s call) (mapServe (ifMissing cfDbtFatalErrors) stored call) :=
    bdbServe_spec btree small cfDbtFatalErrors held ofCall
  exact @PartialRun.answers_eq _ _ _ _ _ _ (fun s stored => Holds scheme (view.content s) stored) _ same calls _ _ holds of

theorem memdb_answers (beyond : Vp → Nat → UInt8) (cfDbtFatalErrors : Bool) (depth : Nat)
    (small : scheme.length ≤ 64) {calls : List MemdbCall} (of : ∀ call ∈ calls, OfScheme scheme call.record) :
    (PartialRun.answers (dbtServe (memdbDriver beyond (depth + 2) scheme) cfDbtFatalErrors) memdbOpen calls).1 =
      (PartialRun.answers (mapServe (some 0)) (fun _ => none) calls).1 := by
  have empty : Stores beyond (htInit 4096 : Ht (Packed scheme)) fun _ => none :=
    { balanced := htInit_balanced (by decide)
      content := by simp [htInit_walk]
      keyed := by simp }
  have holds : InMemory beyond scheme memdbOpen fun _ => none := ⟨htInit 4096, rfl, empty⟩
  have same (ht : Ht Vp) (stored : Stored) (call : MemdbCall) (held : InMemory beyond scheme ht stored)
      (ofCall : OfScheme scheme call.record) :
      SameStep (InMemory beyond scheme) (dbtServe (memdbDriver beyond (depth + 2) scheme) cfDbtFatalErrors ht call)
        (mapServe (some 0) stored call) := memdbServe_spec small cfDbtFatalErrors depth held ofCall
  exact PartialRun.answers_eq same calls holds of

end Drivers

/-- A record is stored, deleted, and deleted once more. -/
def deletedTwice : List MemdbCall :=
  [.set (sampleRecord ⟨[122], by decide⟩ (some 3)), .del (sampleRecord ⟨[122], by decide⟩ none),
    .del (sampleRecord ⟨[122], by decide⟩ none)]

end Mopher.Bdb
