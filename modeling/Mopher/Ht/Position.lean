import Mopher.Ht.Iterate
import Mopher.Ht.Map

/-!
# Positions in a table that changes

A position points at a record of a chain.  `ht_remove` may be called between two
calls of `ht_next`: the position keeps its meaning as long as the record that is
removed is not among those that are still to be returned.
-/

set_option autoImplicit false

namespace Mopher

section Model
variable {α : Type}

/-- The position in the table as it is now: its record with those that follow it in
the chain.  Nothing is left to point at once the record is freed.  No two records
of a table are equal, so that a record tells its place in the chain. -/
def htDeref [DecidableEq α] (t : Ht α) (pos : HtPos α) : Option (HtPos α) :=
  match pos.record with
  | [] => some pos
  | data :: _ =>
      match (t.table pos.bucket).dropWhile fun other => !decide (other = data) with
      | [] => none
      | chain => some ⟨pos.bucket, chain⟩

/-- The position is at the end, or its records are the last ones of a chain. -/
def PointsInto (t : Ht α) (pos : HtPos α) : Prop :=
  pos.record ≠ [] → pos.bucket < t.buckets ∧ pos.record <:+ t.table pos.bucket

/-- Removes those of the records that are `gone`, one after the other. -/
def htSweep (ops : HtOps α) (gone : α → Bool) (t : Ht α) (l : List α) : Ht α :=
  l.foldl (fun t data => if gone data then htRemove ops t data else t) t

def HtPos.map {β : Type} (f : α → β) (pos : HtPos α) : HtPos β := ⟨pos.bucket, pos.record.map f⟩

end Model

section Position
variable {α : Type} {ops : HtOps α} {t : Ht α} {pos : HtPos α}

theorem htStart_pointsInto (placed : Placed ops t) : PointsInto t (htStart t) := by
  intro filled
  by_cases none' : t.records = 0
  · simp [htStart, none'] at filled
  · simp only [htStart, if_neg none'] at filled ⊢
    exact ⟨placed.bucket_lt filled, List.suffix_refl _⟩

theorem htNext_pointsInto (points : PointsInto t pos) : PointsInto t (htNext t pos).2 := by
  intro filled
  cases records : pos.record with
  | nil =>
      rw [htNext_end records] at filled ⊢
      exact points filled
  | cons data rest =>
      obtain ⟨inside, suffix⟩ := points (by simp [records])
      rw [records] at suffix
      cases rest with
      | cons next rest =>
          simp only [htNext, records]
          exact ⟨inside, (List.suffix_cons data _).trans suffix⟩
      | nil =>
          obtain ⟨_, stops⟩ := htSkip_spec (t := t) (t.buckets - (pos.bucket + 1)) (pos.bucket + 1)
            (by omega)
          simp only [htNext, records] at filled ⊢
          rcases stops with last | ⟨below, _⟩
          · rw [if_pos last] at filled
            exact (filled rfl).elim
          · rw [if_neg (by omega)]
            exact ⟨below, List.suffix_refl _⟩

theorem recordsFrom_suffix (i : Nat) (inside : i ≤ t.buckets) : recordsFrom t i <:+ htWalk t := by
  induction i with
  | zero => rw [recordsFrom_zero]
  | succ i ih =>
      have earlier := ih (by omega)
      rw [recordsFrom_cons (by omega)] at earlier
      exact (List.suffix_append _ _).trans earlier

theorem remaining_eq (filled : pos.record ≠ []) :
    remaining t pos = pos.record ++ recordsFrom t (pos.bucket + 1) := by
  obtain ⟨data, rest, records⟩ := List.exists_cons_of_ne_nil filled
  simp only [remaining, records]

/-- What is still to be returned comes last in the walk. -/
theorem remaining_suffix (points : PointsInto t pos) : remaining t pos <:+ htWalk t := by
  by_cases filled : pos.record = []
  · simp only [remaining, filled]
    exact List.nil_suffix
  · obtain ⟨inside, before, chain⟩ := points filled
    have whole := recordsFrom_suffix pos.bucket (by omega : pos.bucket ≤ t.buckets)
    rw [recordsFrom_cons inside, ← chain, List.append_assoc, ← remaining_eq filled] at whole
    exact (List.suffix_append _ _).trans whole

/-- The record that `ht_next` returns matches none of those that it leaves. -/
theorem htNext_apart (lawful : ops.Lawful) (placed : Placed ops t) (points : PointsInto t pos)
    {data : α} {rest : List α} (next : remaining t pos = data :: rest) :
    ∀ other ∈ rest, ops.matching data other = false := by
  have distinct := (placed.walk_distinct lawful).sublist (remaining_suffix points).sublist
  rw [next] at distinct
  exact (List.pairwise_cons.mp distinct).1

/-- `ht_remove` of a record that is not to be returned any more leaves the position
and the records behind it. -/
theorem htRemove_position (lawful : ops.Lawful) (placed : Placed ops t) (points : PointsInto t pos)
    {data : α} (behind : ∀ other ∈ remaining t pos, ops.matching data other = false) :
    PointsInto (htRemove ops t data) pos ∧
      remaining (htRemove ops t data) pos = remaining t pos := by
  by_cases filled : pos.record = []
  · exact ⟨fun filled' => (filled' filled).elim, by simp only [remaining, filled]⟩
  · obtain ⟨inside, before, chain⟩ := points filled
    rw [remaining_eq filled] at behind
    have kept (l : List α) (part : ∀ other ∈ l, ops.matching data other = false) :
        l.filter (fun other => !ops.matching data other) = l := by
      rw [List.filter_eq_self]
      intro other member
      rw [part other member, Bool.not_false]
    constructor
    · intro _
      rw [htRemove_buckets, htRemove_table lawful placed, ← chain, List.filter_append,
        kept pos.record fun other member => behind other (List.mem_append_left _ member)]
      exact ⟨inside, List.suffix_append _ _⟩
    · have later : recordsFrom (htRemove ops t data) (pos.bucket + 1) =
          recordsFrom t (pos.bucket + 1) := by
        have none' := kept (recordsFrom t (pos.bucket + 1)) fun other member =>
          behind other (List.mem_append_right _ member)
        rw [recordsFrom, List.filter_flatMap] at none'
        simp only [recordsFrom, htRemove_buckets]
        rw [← none']
        apply List.flatMap_congr
        intro i _
        exact htRemove_table lawful placed data i
      rw [remaining_eq filled, remaining_eq filled, later]

/-- A position in a table whose records differ is the one that its record tells. -/
theorem htDeref_eq [DecidableEq α] (points : PointsInto t pos)
    (nodup : (t.table pos.bucket).Nodup) : htDeref t pos = some pos := by
  obtain ⟨bucket, record⟩ := pos
  cases record with
  | nil => rfl
  | cons data rest =>
      obtain ⟨_, before, chain⟩ := points (List.cons_ne_nil _ _)
      simp only at chain nodup
      have fresh : ∀ other ∈ before, (!decide (other = data)) = true := by
        intro other member
        rw [← chain] at nodup
        have apart := (List.nodup_append.mp nodup).2.2 other member data List.mem_cons_self
        simp [apart]
      have found : (t.table bucket).dropWhile (fun other => !decide (other = data)) = data :: rest := by
        rw [← chain, List.dropWhile_append_of_pos fresh]
        simp
      simp only [htDeref, found]

theorem Placed.nodup (lawful : ops.Lawful) (placed : Placed ops t) (i : Nat) : (t.table i).Nodup := by
  apply (placed.distinct i).imp
  rintro a b apart rfl
  rw [lawful.refl a] at apart
  cases apart

theorem htSweep_spec (lawful : ops.Lawful) (gone : α → Bool) (l : List α) : ∀ t : Ht α,
    Placed ops t → Placed ops (htSweep ops gone t l) ∧ (htSweep ops gone t l).buckets = t.buckets ∧
      ∀ i, (htSweep ops gone t l).table i =
        (t.table i).filter fun other => l.all fun data => !(gone data && ops.matching data other) := by
  induction l with
  | nil =>
      intro t placed
      refine ⟨placed, rfl, fun i => ?_⟩
      simp only [List.all_nil, List.filter_true]
      rfl
  | cons data l ih =>
      intro t placed
      cases removed : gone data with
      | false =>
          obtain ⟨placed', buckets, table⟩ := ih t placed
          have skip : htSweep ops gone t (data :: l) = htSweep ops gone t l := by
            simp [htSweep, removed]
          rw [skip]
          refine ⟨placed', buckets, fun i => ?_⟩
          simp [table i, removed]
      | true =>
          obtain ⟨placed', buckets, table⟩ := ih _ (htRemove_placed lawful placed data)
          have remove : htSweep ops gone t (data :: l) =
              htSweep ops gone (htRemove ops t data) l := by
            simp [htSweep, removed]
          rw [remove]
          refine ⟨placed', by rw [buckets, htRemove_buckets], fun i => ?_⟩
          rw [table i, htRemove_table lawful placed, List.filter_filter]
          simp only [List.all_cons, removed, Bool.true_and, Bool.and_comm]

/-- Sweeping the records of a table leaves those that are not gone. -/
theorem htSweep_walk (lawful : ops.Lawful) (placed : Placed ops t) (gone : α → Bool) (i : Nat) :
    (htSweep ops gone t (htWalk t)).table i = (t.table i).filter fun data => !gone data := by
  rw [(htSweep_spec lawful gone (htWalk t) t placed).2.2 i]
  apply List.filter_congr
  intro other member
  have inside := placed.table_walk member
  rw [Bool.eq_iff_iff, List.all_eq_true]
  constructor
  · intro none'
    have self := none' other inside
    rwa [lawful.refl, Bool.and_true] at self
  · intro kept data member'
    rw [Bool.not_eq_true', Bool.and_eq_false_imp]
    intro removed
    rw [Bool.eq_false_iff]
    intro same
    obtain rfl := eq_of_matching lawful (placed.walk_distinct lawful) member' inside same
    rw [removed] at kept
    cases kept

end Position

/-! ## Positions over a part of the records -/

section Map
variable {α β : Type} (f : α → β)

theorem htStart_map (t : Ht α) : htStart (t.map f) = (htStart t).map f := by
  have records : (t.map f).records = t.records := rfl
  by_cases none' : t.records = 0
  · simp only [htStart, records, if_pos none', HtPos.map, List.map_nil]
  · simp only [htStart, records, if_neg none', HtPos.map]
    rfl

theorem htSkip_map (t : Ht α) (left : Nat) : ∀ i, htSkip (t.map f) i left = htSkip t i left := by
  induction left with
  | zero => intro i; rfl
  | succ left ih =>
      intro i
      simp only [htSkip, ih]
      simp only [Ht.map, List.isEmpty_map]

theorem htNext_map (t : Ht α) (pos : HtPos α) :
    htNext (t.map f) (pos.map f) = ((htNext t pos).1.map f, (htNext t pos).2.map f) := by
  obtain ⟨bucket, record⟩ := pos
  have buckets : (t.map f).buckets = t.buckets := rfl
  cases record with
  | nil => rfl
  | cons data rest =>
      cases rest with
      | cons next rest => rfl
      | nil =>
          simp only [htNext, HtPos.map, List.map_cons, List.map_nil, htSkip_map, buckets]
          split <;> rfl

theorem PointsInto.map {t : Ht α} {pos : HtPos α} (points : PointsInto t pos) :
    PointsInto (t.map f) (pos.map f) := by
  intro filled
  obtain ⟨inside, suffix⟩ := points (by simpa [HtPos.map] using filled)
  exact ⟨inside, suffix.map f⟩

end Map

end Mopher
