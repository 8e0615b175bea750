import Mopher.Ht.Iterate

/-!
# The collision counter

`ht_insert` counts a record that is put into a bucket in use, so a new table and a
table after a resize have as many collisions as records beyond one for each bucket
in use.  `ht_remove` counts down once because its chain still has records and once
more because it had others before, and so twice for one record.
-/

set_option autoImplicit false

namespace Mopher

section Model
variable {α : Type}

/-- The buckets with a chain. -/
def usedBuckets (t : Ht α) : Nat := (List.range t.buckets).countP fun i => !(t.table i).isEmpty

/-- `ht_collisions` counts the records beyond the first of each bucket. -/
def CollisionsExact (t : Ht α) : Prop := t.collisions = t.records - usedBuckets t

/-- `ht_remove` of `data` takes a record out of a chain that has others. -/
def SharesChain (ops : HtOps α) (t : Ht α) (data : α) : Prop :=
  (t.table (htBucket ops t data)).any (ops.matching data) = true ∧
    1 < (t.table (htBucket ops t data)).length

end Model

/-! ## Buckets in use -/

section Used
variable {α : Type}

/-- Replacing one chain counts for the bucket of that chain only. -/
theorem countP_update (f : Nat → List α) {bucket : Nat} (chain : List α) (l : List Nat)
    (nodup : l.Nodup) (member : bucket ∈ l) :
    (l.countP fun i => !(Function.update f bucket chain i).isEmpty) +
        (if (f bucket).isEmpty then 0 else 1) =
      (l.countP fun i => !(f i).isEmpty) + (if chain.isEmpty then 0 else 1) := by
  induction l with
  | nil => cases member
  | cons i l ih =>
      obtain ⟨fresh, nodup'⟩ := List.nodup_cons.mp nodup
      by_cases here : i = bucket
      · subst here
        have others : (l.countP fun j => !(Function.update f i chain j).isEmpty) =
            l.countP fun j => !(f j).isEmpty := by
          apply List.countP_congr
          intro j inside
          have apart : j ≠ i := fun same => fresh (same ▸ inside)
          rw [Function.update_of_ne apart]
        rw [List.countP_cons, List.countP_cons, others, Function.update_self]
        cases (f i).isEmpty <;> cases chain.isEmpty <;> simp
      · have later : bucket ∈ l := by
          rcases List.mem_cons.mp member with same | later
          · exact absurd same.symm here
          · exact later
        rw [List.countP_cons, List.countP_cons, Function.update_of_ne here]
        have rest := ih nodup' later
        omega

/-- A bucket in use has a record. -/
theorem countP_le_flatMap (f : Nat → List α) (l : List Nat) :
    (l.countP fun i => !(f i).isEmpty) ≤ (l.flatMap f).length := by
  induction l with
  | nil => exact Nat.le_refl 0
  | cons i l ih =>
      rw [List.countP_cons, List.flatMap_cons, List.length_append]
      cases chain : f i with
      | nil => simpa using ih
      | cons data rest =>
          simp only [List.isEmpty_cons, Bool.not_false, if_true, List.length_cons]
          omega

variable {ops : HtOps α} {t : Ht α}

theorem usedBuckets_le_walk (t : Ht α) : usedBuckets t ≤ (htWalk t).length :=
  countP_le_flatMap t.table (List.range t.buckets)

theorem htInit_usedBuckets (buckets : Nat) : usedBuckets (htInit buckets : Ht α) = 0 := by
  simp [usedBuckets, htInit]

theorem htPrepend_usedBuckets (positive : 0 < t.buckets) (data : α) :
    usedBuckets (htPrepend ops t data) + (if (t.table (htBucket ops t data)).isEmpty then 0 else 1) =
      usedBuckets t + 1 :=
  countP_update t.table (data :: t.table (htBucket ops t data)) (List.range t.buckets)
    List.nodup_range (List.mem_range.mpr (htBucket_lt ops positive data))

theorem htRemove_usedBuckets (positive : 0 < t.buckets) {data : α}
    (found : (t.table (htBucket ops t data)).any (ops.matching data) = true) :
    usedBuckets (htRemove ops t data) +
        (if (t.table (htBucket ops t data)).isEmpty then 0 else 1) =
      usedBuckets t +
        (if ((t.table (htBucket ops t data)).eraseP (ops.matching data)).isEmpty then 0 else 1) := by
  have removed := countP_update t.table
    ((t.table (htBucket ops t data)).eraseP (ops.matching data)) (List.range t.buckets)
    List.nodup_range (List.mem_range.mpr (htBucket_lt ops positive data))
  simpa only [usedBuckets, htRemove, found, if_true] using removed

end Used

/-! ## What one call keeps -/

section Steps
variable {α : Type} {ops : HtOps α} {t : Ht α}

/-- A table that can be used, with as many records as its chains have. -/
structure Sized (t : Ht α) : Prop where
  positive : 0 < t.buckets
  records : t.records = (htWalk t).length

theorem htInit_sized {buckets : Nat} (positive : 0 < buckets) : Sized (htInit buckets : Ht α) where
  positive := positive
  records := by simp [htInit, htWalk]

theorem htPrepend_sized (sized : Sized t) (data : α) : Sized (htPrepend ops t data) where
  positive := sized.positive
  records := by
    rw [(htPrepend_walk ops sized.positive data).length_eq, htPrepend_records, sized.records]
    simp

theorem htRemove_sized (sized : Sized t) (data : α) : Sized (htRemove ops t data) where
  positive := by
    rw [htRemove_buckets]
    exact sized.positive
  records := htRemove_records sized.positive sized.records data

/-- The counter is not negative where it is exact. -/
theorem CollisionsExact.nonneg (sized : Sized t) (counted : CollisionsExact t) :
    0 ≤ t.collisions := by
  have fewer := usedBuckets_le_walk t
  have records := sized.records
  unfold CollisionsExact at counted
  omega

theorem htInit_exact (buckets : Nat) : CollisionsExact (htInit buckets : Ht α) := by
  unfold CollisionsExact
  rw [htInit_usedBuckets]
  rfl

theorem htPrepend_exact (positive : 0 < t.buckets) (counted : CollisionsExact t) (data : α) :
    CollisionsExact (htPrepend ops t data) := by
  have used := @htPrepend_usedBuckets α ops t positive data
  unfold CollisionsExact at counted ⊢
  rw [htPrepend_records]
  simp only [htPrepend] at used ⊢
  split at used
  · rename_i empty
    rw [if_pos empty]
    omega
  · rename_i filled
    rw [if_neg filled]
    omega

/-- `ht_insert` keeps the counter exact, also across a resize. -/
theorem htInsert_exact (ops : HtOps α) (depth : Nat) : ∀ u data result,
    (Sized u ∧ CollisionsExact u) → htInsert ops depth u data = some result →
      Sized result.2 ∧ CollisionsExact result.2 := by
  apply htInsert_invariant
  · intro u holds
    have more : 0 < 2 * u.buckets := Nat.mul_pos Nat.two_pos holds.1.positive
    exact ⟨htInit_sized more, htInit_exact _⟩
  · intro u data holds
    exact ⟨htPrepend_sized holds.1 data, htPrepend_exact holds.1.positive holds.2 data⟩

/-- `ht_remove` keeps the counter exact unless it takes a record out of a chain that
has others. -/
theorem htRemove_exact_iff (positive : 0 < t.buckets) (counted : CollisionsExact t) (data : α) :
    CollisionsExact (htRemove ops t data) ↔ ¬ SharesChain ops t data := by
  cases found : (t.table (htBucket ops t data)).any (ops.matching data) with
  | false =>
      rw [htRemove_absent found]
      refine iff_of_true counted ?_
      intro shares
      rw [shares.1] at found
      cases found
  | true =>
      have used := htRemove_usedBuckets positive found
      obtain ⟨record, member, same⟩ := List.any_eq_true.mp found
      have shorter := List.length_eraseP_of_mem member same
      have filled := List.length_pos_of_mem member
      have notEmpty : (t.table (htBucket ops t data)).isEmpty = false := by
        rw [List.isEmpty_eq_false_iff]
        exact List.ne_nil_of_mem member
      have restEmpty : ((t.table (htBucket ops t data)).eraseP (ops.matching data)).isEmpty =
          decide ((t.table (htBucket ops t data)).length = 1) := by
        rw [Bool.eq_iff_iff, decide_eq_true_eq, List.isEmpty_iff_length_eq_zero, shorter]
        omega
      have tailEmpty : (t.table (htBucket ops t data)).tail.isEmpty =
          decide ((t.table (htBucket ops t data)).length = 1) := by
        rw [Bool.eq_iff_iff, decide_eq_true_eq, List.isEmpty_iff_length_eq_zero, List.length_tail]
        omega
      have records : (htRemove ops t data).records = t.records - 1 := by
        simp only [htRemove, found, if_true]
      have collisions : (htRemove ops t data).collisions =
          if (t.table (htBucket ops t data)).length = 1 then t.collisions else t.collisions - 2 := by
        simp only [htRemove, found, if_true, restEmpty, tailEmpty, decide_eq_true_eq]
        split <;> omega
      rw [notEmpty, restEmpty] at used
      unfold CollisionsExact SharesChain at *
      rw [records, collisions]
      by_cases alone : (t.table (htBucket ops t data)).length = 1
      · simp only [alone, decide_true, if_true] at used ⊢
        exact iff_of_true (by simp at used; omega) (by omega)
      · simp only [alone, decide_false, if_false] at used ⊢
        refine iff_of_false (by simp at used; omega) ?_
        rw [not_not]
        exact ⟨found, by omega⟩

end Steps

/-! ## Runs -/

section Runs
variable {α : Type} {ops : HtOps α}

theorem htRun_sized {buckets : Nat} (positive : 0 < buckets) (depth : Nat)
    (calls : List (HtCall α)) (t : Ht α)
    (ran : htRun ops depth (htInit buckets) calls = some t) : Sized t := by
  refine @htRun_invariant _ ops Sized (fun _ _ => True) depth ?_ ?_ calls _ (htInit_sized positive)
    (fun _ _ _ _ _ _ => trivial) t ran
  · apply htInsert_invariant
    · intro u sized
      exact htInit_sized (Nat.mul_pos Nat.two_pos sized.positive)
    · intro u data sized
      exact htPrepend_sized sized data
  · intro u data sized _
    exact htRemove_sized sized data

/-- In every table that a run on a new table comes to, `ht_collisions` is the number
of records less the number of buckets in use and not negative, exactly when no
removal of the run takes a record out of a chain that has others. -/
theorem collisions_exact_iff {buckets : Nat} (positive : 0 < buckets) (depth : Nat)
    (calls : List (HtCall α)) :
    (∀ front back, calls = front ++ back →
      ∀ t, htRun ops depth (htInit buckets) front = some t →
        t.collisions = t.records - usedBuckets t ∧ 0 ≤ t.collisions) ↔
      EachRemoval ops depth (fun u data => ¬ SharesChain ops u data) (htInit buckets) calls := by
  constructor
  · -- a removal that counts down twice is seen in the table after it
    intro counted front data back split u ran
    have before : CollisionsExact u := (counted front (.remove data :: back) split u ran).1
    have after : CollisionsExact (htRemove ops u data) := by
      refine (counted (front ++ [.remove data]) back (by rw [split]; simp) _ ?_).1
      rw [htRun_append, ran]
      rfl
    exact (htRemove_exact_iff (htRun_sized positive depth front u ran).positive before data).mp after
  · intro spared front back split t ran
    rw [split] at spared
    have holds : Sized t ∧ CollisionsExact t := by
      refine @htRun_invariant _ ops (fun u => Sized u ∧ CollisionsExact u) _ _ ?_ ?_ front _
        ⟨htInit_sized positive, htInit_exact buckets⟩ spared.append_left t ran
      · exact htInsert_exact ops depth
      · intro u data holds alone
        exact ⟨htRemove_sized holds.1 data,
          (htRemove_exact_iff holds.1.positive holds.2 data).mpr alone⟩
    exact ⟨holds.2, holds.2.nonneg holds.1⟩

end Runs

/-- Records 0 and 8 share a bucket, record 3 is alone in its own. -/
theorem lone_removal_keeps_the_count :
    EachRemoval natOps 2 (fun u data => ¬ SharesChain natOps u data) (htInit 8)
        [.insert 0, .insert 8, .insert 3, .remove 3] ∧
      ∃ t, htRun natOps 2 (htInit 8) [.insert 0, .insert 8, .insert 3, .remove 3] = some t ∧
        t.collisions = t.records - usedBuckets t ∧ 0 ≤ t.collisions := by
  have alone : EachRemoval natOps 2 (fun u data => ¬ SharesChain natOps u data) (htInit 8)
      [.insert 0, .insert 8, .insert 3, .remove 3] := by
    intro front data back split u ran shares
    obtain ⟨rfl, rfl⟩ : front = [.insert 0, .insert 8, .insert 3] ∧ data = 3 := by
      clear ran shares
      rcases front with _ | ⟨first, _ | ⟨second, _ | ⟨third, _ | ⟨fourth, rest⟩⟩⟩⟩ <;>
        grind [List.append_eq_nil_iff]
    have chain : (htRun natOps 2 (htInit 8) [.insert 0, .insert 8, .insert 3]).map
        (fun t => (t.table (htBucket natOps t 3)).length) = some 1 := by decide
    rw [ran, Option.map_some, Option.some.injEq] at chain
    have others := shares.2
    omega
  exact ⟨alone, _, rfl, (collisions_exact_iff (by decide) 2 _).mpr alone _ []
    (List.append_nil _).symm _ rfl⟩

/-- One of two records of a bucket is removed: a record and a bucket in use are left,
and `ht_collisions` is -1. -/
theorem removal_counts_down_twice : ∃ t,
    htRun natOps 2 (htInit 8) [.insert 0, .insert 8, .remove 8] = some t ∧ t.records = 1 ∧
      usedBuckets t = 1 ∧ t.collisions = -1 :=
  ⟨_, rfl, by decide, by decide, by decide⟩

end Mopher
