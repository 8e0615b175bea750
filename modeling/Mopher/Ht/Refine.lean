import Mopher.Ht.Table

/-!
# The hash table is a finite set

What `ht_insert`, `ht_resize` and `ht_remove` do to the records of a table, seen
as the walk through its chains, and that they keep the representation.  A resize
happens right after an insertion, so the table that it fills has room for all
records and is not resized in turn.
-/

set_option autoImplicit false

namespace Mopher

section Operations
variable {α : Type} {ops : HtOps α} {t : Ht α}

theorem htInit_placed {buckets : Nat} (positive : 0 < buckets) :
    Placed ops (htInit buckets : Ht α) where
  positive := positive
  bucket i data member := by cases member
  distinct i := List.Pairwise.nil
  records := by simp [htInit, htWalk]
  head i filled := (filled rfl).elim

theorem htInit_walk (buckets : Nat) : htWalk (htInit buckets : Ht α) = [] := by
  simp [htInit, htWalk]

/-! ## Insertion -/

@[simp] theorem htPrepend_buckets (data : α) : (htPrepend ops t data).buckets = t.buckets := rfl

@[simp] theorem htPrepend_records (data : α) : (htPrepend ops t data).records = t.records + 1 := rfl

theorem htPrepend_walk (ops : HtOps α) (positive : 0 < t.buckets) (data : α) :
    (htWalk (htPrepend ops t data)).Perm (data :: htWalk t) := by
  obtain ⟨before, after, old, new⟩ := flatMap_update t.table (List.nodup_range (n := t.buckets))
    (List.mem_range.mpr (htBucket_lt ops positive data))
  have walk : htWalk (htPrepend ops t data) =
      before ++ ((data :: t.table (htBucket ops t data)) ++ after) := new _
  rw [walk, htWalk, old]
  exact List.perm_middle

theorem htPrepend_head (placed : Placed ops t) (data : α) (i : Nat)
    (filled : (htPrepend ops t data).table i ≠ []) : (htPrepend ops t data).head ≤ i := by
  have empty (none' : t.records = 0) : ∀ i, t.table i = [] := by
    intro i
    by_contra filled
    obtain ⟨other, member⟩ := List.exists_mem_of_ne_nil _ filled
    have length := placed.records
    rw [none', eq_comm, Int.natCast_eq_zero, List.length_eq_zero_iff] at length
    have inside := placed.table_walk member
    rw [length] at inside
    cases inside
  simp only [htPrepend] at filled ⊢
  by_cases same : i = htBucket ops t data
  · subst same
    split <;> omega
  · rw [Function.update_of_ne same] at filled
    have lower := placed.head i filled
    split
    · rename_i first
      rcases first with below | none'
      · omega
      · exact (filled (empty none' i)).elim
    · exact lower

/-- A record that matches no other one takes its place. -/
theorem htPrepend_placed (placed : Placed ops t) {data : α}
    (fresh : ∀ other ∈ htWalk t, ops.matching data other = false) :
    Placed ops (htPrepend ops t data) where
  positive := placed.positive
  bucket i other member := by
    simp only [htPrepend] at member
    by_cases same : i = htBucket ops t data
    · subst same
      rw [Function.update_self] at member
      rcases List.mem_cons.mp member with rfl | old
      · rfl
      · exact placed.bucket _ other old
    · rw [Function.update_of_ne same] at member
      exact placed.bucket i other member
  distinct i := by
    simp only [htPrepend]
    by_cases same : i = htBucket ops t data
    · subst same
      rw [Function.update_self]
      refine List.Pairwise.cons ?_ (placed.distinct _)
      intro other member
      exact fresh other (placed.table_walk member)
    · rw [Function.update_of_ne same]
      exact placed.distinct i
  records := by
    rw [(htPrepend_walk ops placed.positive data).length_eq, htPrepend_records, placed.records]
    simp
  head := htPrepend_head placed data

theorem htInsert_duplicate {data other : α} (found : htLookup ops t data = some other) (depth : Nat) :
    htInsert ops (depth + 1) t data = some (false, t) := by
  simp only [htInsert, found, Option.isSome_some, if_true]

/-- An insertion that does not resize. -/
theorem htInsert_room {data : α} (absent : htLookup ops t data = none)
    (room : htOverloaded (htPrepend ops t data) = false) (depth : Nat) :
    htInsert ops (depth + 1) t data = some (true, htPrepend ops t data) := by
  simp [htInsert, absent, room]

theorem htReinsert_invariant {Inv : Ht α → Prop} {insert : Ht α → α → Option (Bool × Ht α)}
    (keep : ∀ u data result, Inv u → insert u data = some result → Inv result.2)
    (rest : List α) : ∀ u result, Inv u → htReinsert insert u rest = some result →
      Inv result.2 := by
  induction rest with
  | nil =>
      intro u result holds done
      cases done
      exact holds
  | cons data rest ih =>
      intro u result holds done
      simp only [htReinsert] at done
      cases inserted : insert u data with
      | none => simp [inserted] at done
      | some answer =>
          obtain ⟨accepted, next⟩ := answer
          have holds' := keep u data _ holds inserted
          simp only [inserted] at done
          cases accepted with
          | false => cases done; exact holds'
          | true => exact ih next result holds' done

/-- What a new table has and a record in front of its chain keeps, `ht_insert` keeps,
also across a resize. -/
theorem htInsert_invariant {Inv : Ht α → Prop} (new : ∀ u, Inv u → Inv (htInit (2 * u.buckets)))
    (prepend : ∀ u data, Inv u → Inv (htPrepend ops u data)) (depth : Nat) :
    ∀ u data result, Inv u → htInsert ops depth u data = some result → Inv result.2 := by
  induction depth with
  | zero => intro u data result _ inserted; cases inserted
  | succ depth ih =>
      intro u data result holds inserted
      have prepended : Inv (htPrepend ops u data) := prepend u data holds
      simp only [htInsert] at inserted
      split at inserted
      · cases inserted
        exact holds
      · split at inserted
        · obtain ⟨resized, ran, rfl⟩ := Option.map_eq_some_iff.mp inserted
          simp only [htResize] at ran
          split at ran
          · cases ran
          · cases ran
            exact prepended
          · rename_i filled
            cases ran
            exact htReinsert_invariant ih _ _ _ (new _ prepended) filled
        · cases inserted
          exact prepended

theorem not_overloaded_iff (u : Ht α) : htOverloaded u = false ↔ 2 * u.records ≤ u.buckets := by
  simp only [htOverloaded, decide_eq_false_iff_not]
  omega

/-- The loops of `ht_resize` fill a table that has room, without a resize. -/
theorem htReinsert_room (lawful : ops.Lawful) (rest : List α) : ∀ u : Ht α, Placed ops u →
    (rest ++ htWalk u).Pairwise (fun a b => ops.matching a b = false) →
    2 * (u.records + rest.length) ≤ u.buckets →
    ∃ new, (∀ depth, htReinsert (htInsert ops (depth + 1)) u rest = some (true, new)) ∧
      Placed ops new ∧ (htWalk new).Perm (rest ++ htWalk u) ∧ new.buckets = u.buckets := by
  induction rest with
  | nil => intro u placed _ _; exact ⟨u, fun _ => rfl, placed, List.Perm.refl _, rfl⟩
  | cons data rest ih =>
      intro u placed distinct room
      obtain ⟨fresh, distinct'⟩ := List.pairwise_cons.mp distinct
      have apart : ∀ other ∈ htWalk u, ops.matching data other = false :=
        fun other member => fresh other (List.mem_append_right _ member)
      have absent := (htLookup_eq_none_iff lawful placed data).mpr apart
      have inserted := htInsert_room absent (by
        rw [not_overloaded_iff, htPrepend_records, htPrepend_buckets]
        simp only [List.length_cons, Nat.cast_add, Nat.cast_one] at room
        omega)
      have moved : (rest ++ htWalk (htPrepend ops u data)).Perm (data :: (rest ++ htWalk u)) :=
        ((htPrepend_walk ops placed.positive data).append_left rest).trans List.perm_middle
      have symmetric : ∀ a b, ops.matching a b = false → ops.matching b a = false :=
        fun a b => unmatched_symm lawful
      obtain ⟨new, reinserted, placedNew, walk, buckets⟩ := ih (htPrepend ops u data)
        (htPrepend_placed placed apart)
        (moved.symm.pairwise distinct (fun {a b} => symmetric a b)) (by
          rw [htPrepend_records, htPrepend_buckets]
          simp only [List.length_cons, Nat.cast_add, Nat.cast_one] at room
          omega)
      refine ⟨new, fun depth => ?_, placedNew, walk.trans moved, buckets⟩
      simp only [htReinsert, inserted depth]
      exact reinserted depth

/-- A resize right after an insertion keeps the records and is not nested. -/
theorem htResize_room (lawful : ops.Lawful) (placed : Placed ops t) (room : t.records ≤ t.buckets) :
    ∃ new, (∀ depth, htResize (htInsert ops (depth + 1)) t = some (true, new)) ∧
      Balanced ops new ∧ (htWalk new).Perm (htWalk t) := by
  have positive : 0 < 2 * t.buckets := Nat.mul_pos two_pos placed.positive
  obtain ⟨new, reinserted, placedNew, walk, buckets⟩ := htReinsert_room lawful (htWalk t)
    (htInit (2 * t.buckets)) (htInit_placed positive)
    (by rw [htInit_walk, List.append_nil]; exact placed.walk_distinct lawful)
    (by
      rw [← placed.records]
      simp only [htInit, zero_add, Nat.cast_mul, Nat.cast_ofNat]
      omega)
  rw [htInit_walk, List.append_nil] at walk
  refine ⟨new, fun depth => ?_, ⟨placedNew, ?_⟩, walk⟩
  · simp only [htResize, reinserted depth]
  · rw [not_overloaded_iff, placedNew.records, walk.length_eq, ← placed.records, buckets]
    simp only [htInit, Nat.cast_mul, Nat.cast_ofNat]
    omega

/-- `ht_insert` of a record that matches none adds it, however deep the calls
may nest. -/
theorem htInsert_new (lawful : ops.Lawful) (balanced : Balanced ops t) {data : α}
    (absent : htLookup ops t data = none) :
    ∃ new, (∀ depth, htInsert ops (depth + 2) t data = some (true, new)) ∧ Balanced ops new ∧
      (htWalk new).Perm (data :: htWalk t) := by
  have placed := balanced.toPlaced
  have fresh := (htLookup_eq_none_iff lawful placed data).mp absent
  have placed' := htPrepend_placed placed fresh
  have walk' := htPrepend_walk ops placed.positive data
  cases overloaded : htOverloaded (htPrepend ops t data) with
  | false =>
      exact ⟨_, fun depth => htInsert_room absent overloaded (depth + 1), ⟨placed', overloaded⟩, walk'⟩
  | true =>
      -- the load was not exceeded before, so twice the buckets have room
      have load := (not_overloaded_iff t).mp balanced.load
      obtain ⟨new, resized, balancedNew, walk⟩ := htResize_room lawful placed' (by
        have positive := placed.positive
        rw [htPrepend_records, htPrepend_buckets]
        omega)
      refine ⟨new, fun depth => ?_, balancedNew, walk.trans walk'⟩
      rw [htInsert]
      simp only [absent, overloaded, resized depth, Option.isSome_none, Bool.false_eq_true, if_false,
        if_true, Option.map_some]

/-! ## Removal -/

/-- A chain has at most one record that matches. -/
theorem eraseP_eq_filter (lawful : ops.Lawful) (data : α) (chain : List α)
    (distinct : chain.Pairwise fun a b => ops.matching a b = false) :
    chain.eraseP (ops.matching data) = chain.filter fun other => !ops.matching data other := by
  induction chain with
  | nil => rfl
  | cons first rest ih =>
      obtain ⟨apart, distinct'⟩ := List.pairwise_cons.mp distinct
      cases same : ops.matching data first with
      | false => simp [same, ih distinct']
      | true =>
          have others : ∀ other ∈ rest, (!ops.matching data other) = true := by
            intro other member
            rw [Bool.not_eq_true', Bool.eq_false_iff]
            intro also
            have both := lawful.trans _ _ _ (lawful.symm _ _ same) also
            rw [apart other member] at both
            cases both
          simp [same, List.filter_eq_self.mpr others]

theorem htRemove_absent {data : α}
    (absent : (t.table (htBucket ops t data)).any (ops.matching data) = false) :
    htRemove ops t data = t := by
  simp [htRemove, absent]

@[simp] theorem htRemove_buckets (data : α) : (htRemove ops t data).buckets = t.buckets := by
  unfold htRemove
  simp only []
  split <;> rfl

/-- `ht_remove` takes the records that match out of every chain. -/
theorem htRemove_table (lawful : ops.Lawful) (placed : Placed ops t) (data : α) (i : Nat) :
    (htRemove ops t data).table i = (t.table i).filter fun other => !ops.matching data other := by
  have elsewhere (other : i ≠ htBucket ops t data) :
      (t.table i).filter (fun other => !ops.matching data other) = t.table i := by
    rw [List.filter_eq_self]
    intro record member
    rw [Bool.not_eq_true', Bool.eq_false_iff]
    intro same
    apply other
    rw [placed.bucket i record member, bucket_of_matching lawful same]
  cases found : (t.table (htBucket ops t data)).any (ops.matching data) with
  | false =>
      rw [htRemove_absent found]
      by_cases same : i = htBucket ops t data
      · subst same
        rw [eq_comm, List.filter_eq_self]
        intro record member
        rw [List.any_eq_false] at found
        simpa using found record member
      · exact (elsewhere same).symm
  | true =>
      simp only [htRemove, found, if_true]
      by_cases same : i = htBucket ops t data
      · subst same
        rw [Function.update_self]
        exact eraseP_eq_filter lawful data _ (placed.distinct _)
      · rw [Function.update_of_ne same]
        exact (elsewhere same).symm

theorem htRemove_walk (lawful : ops.Lawful) (placed : Placed ops t) (data : α) :
    htWalk (htRemove ops t data) = (htWalk t).filter fun other => !ops.matching data other := by
  simp only [htWalk, htRemove_buckets, List.filter_flatMap]
  apply List.flatMap_congr
  intro i _
  exact htRemove_table lawful placed data i

theorem htRemove_records (positive : 0 < t.buckets) (counted : t.records = (htWalk t).length)
    (data : α) : (htRemove ops t data).records = (htWalk (htRemove ops t data)).length := by
  cases found : (t.table (htBucket ops t data)).any (ops.matching data) with
  | false => rw [htRemove_absent found]; exact counted
  | true =>
      obtain ⟨before, after, old, new⟩ := flatMap_update t.table (List.nodup_range (n := t.buckets))
        (List.mem_range.mpr (htBucket_lt ops positive data))
      have walk : htWalk (htRemove ops t data) =
          before ++ ((t.table (htBucket ops t data)).eraseP (ops.matching data) ++ after) := by
        simp only [htRemove, found, if_true, htWalk]
        exact new _
      have records : (htRemove ops t data).records = t.records - 1 := by
        simp only [htRemove, found, if_true]
      obtain ⟨record, member, same⟩ := List.any_eq_true.mp found
      have shorter := List.length_eraseP_of_mem member same
      have filled := List.length_pos_of_mem member
      rw [walk, records, counted, htWalk, old]
      simp only [List.length_append, shorter]
      omega

theorem htRemove_head (data : α) : (htRemove ops t data).head = t.head := by
  unfold htRemove
  simp only []
  split <;> rfl

theorem htRemove_placed (lawful : ops.Lawful) (placed : Placed ops t) (data : α) :
    Placed ops (htRemove ops t data) := by
  have table := htRemove_table lawful placed data
  have bucket (other : α) : htBucket ops (htRemove ops t data) other = htBucket ops t other := by
    simp only [htBucket, htRemove_buckets]
  refine ⟨?_, ?_, ?_, htRemove_records placed.positive placed.records data, ?_⟩
  · rw [htRemove_buckets]
    exact placed.positive
  · intro i other member
    rw [table i] at member
    rw [bucket]
    exact placed.bucket i other (List.mem_of_mem_filter member)
  · intro i
    rw [table i]
    exact (placed.distinct i).filter _
  · intro i filled
    rw [htRemove_head]
    apply placed.head i
    rintro empty
    rw [table i, empty] at filled
    exact filled rfl

theorem htRemove_balanced (lawful : ops.Lawful) (balanced : Balanced ops t) (data : α) :
    Balanced ops (htRemove ops t data) := by
  have placed := balanced.toPlaced
  refine ⟨htRemove_placed lawful placed data, ?_⟩
  have fewer : (htWalk (htRemove ops t data)).length ≤ (htWalk t).length := by
    rw [htRemove_walk lawful placed]
    exact List.length_filter_le _ _
  have load := (not_overloaded_iff t).mp balanced.load
  rw [placed.records] at load
  rw [not_overloaded_iff, htRemove_records placed.positive placed.records, htRemove_buckets]
  omega

end Operations

/-! ## The set -/

section Set
variable {α : Type} (ops : HtOps α)

/-- What a call does to a set of records: a record that matches one of them is
not added, and all that match are removed. -/
def setStep (stored : Set α) : HtCall α → Set α
  | .insert data => { other | other ∈ stored ∨ other = data ∧ ∀ x ∈ stored, ops.matching data x = false }
  | .lookup _ => stored
  | .remove data => { other | other ∈ stored ∧ ops.matching data other = false }

def setRun (stored : Set α) (calls : List (HtCall α)) : Set α := calls.foldl (setStep ops) stored

/-- The table holds the records of the set, and every call does to it what it
does to the set. -/
structure HtRefines (t : Ht α) (stored : Set α) : Prop where
  content : ∀ data, data ∈ htWalk t ↔ data ∈ stored
  placed : ∀ i data, data ∈ t.table i → i = ops.hash data % t.buckets
  distinct : (htWalk t).Pairwise fun a b => ops.matching a b = false
  records : t.records = (htWalk t).length
  lookup : ∀ query data,
    htLookup ops t query = some data ↔ data ∈ stored ∧ ops.matching query data = true
  insert : ∀ data depth, htInsert ops (depth + 2) t data = some (false, t) ↔
    ∃ x ∈ stored, ops.matching data x = true
  insertNew : ∀ data, (∀ x ∈ stored, ops.matching data x = false) →
    ∃ new, (∀ depth, htInsert ops (depth + 2) t data = some (true, new)) ∧
      (htWalk new).Perm (data :: htWalk t)
  remove : ∀ data,
    htWalk (htRemove ops t data) = (htWalk t).filter fun other => !ops.matching data other
  resize : ∀ data, (∀ x ∈ stored, ops.matching data x = false) →
    ∃ new, (∀ depth, htResize (htInsert ops (depth + 1)) (htPrepend ops t data) = some (true, new)) ∧
      (htWalk new).Perm (htWalk (htPrepend ops t data)) ∧ Balanced ops new

variable {ops}

theorem Balanced.refines (lawful : ops.Lawful) {t : Ht α} (balanced : Balanced ops t) {stored : Set α}
    (content : ∀ data, data ∈ htWalk t ↔ data ∈ stored) : HtRefines ops t stored := by
  have placed := balanced.toPlaced
  have absent (data : α) (fresh : ∀ x ∈ stored, ops.matching data x = false) :
      ∀ x ∈ htWalk t, ops.matching data x = false :=
    fun x member => fresh x ((content x).mp member)
  have none' (data : α) (fresh : ∀ x ∈ stored, ops.matching data x = false) :=
    (htLookup_eq_none_iff lawful placed data).mpr (absent data fresh)
  refine
    { content := content
      placed := placed.bucket
      distinct := placed.walk_distinct lawful
      records := placed.records
      lookup := fun query data => by rw [htLookup_eq_some_iff lawful placed, content]
      insert := fun data depth => ?_
      insertNew := fun data fresh => ?_
      remove := htRemove_walk lawful placed
      resize := fun data fresh => ?_ }
  · constructor
    · intro refused
      by_contra fresh
      have fresh' : ∀ x ∈ stored, ops.matching data x = false := by
        intro x member
        rw [Bool.eq_false_iff]
        exact fun same => fresh ⟨x, member, same⟩
      obtain ⟨new, inserted, _⟩ := htInsert_new lawful balanced (none' data fresh')
      rw [inserted] at refused
      cases refused
    · rintro ⟨x, member, same⟩
      have found := (htLookup_eq_some_iff lawful placed data x).mpr ⟨(content x).mpr member, same⟩
      exact htInsert_duplicate found (depth + 1)
  · obtain ⟨new, inserted, _, walk⟩ := htInsert_new lawful balanced (none' data fresh)
    exact ⟨new, inserted, walk⟩
  · have load := (not_overloaded_iff t).mp balanced.load
    obtain ⟨new, resized, balancedNew, walk⟩ :=
      htResize_room lawful (htPrepend_placed placed (absent data fresh)) (by
        have positive := placed.positive
        rw [htPrepend_records, htPrepend_buckets]
        omega)
    exact ⟨new, resized, walk, balancedNew⟩

/-- One call keeps the representation and does what it does to the set. -/
theorem htStep_refines (lawful : ops.Lawful) {t : Ht α} (balanced : Balanced ops t) {stored : Set α}
    (content : ∀ data, data ∈ htWalk t ↔ data ∈ stored) (call : HtCall α) :
    ∃ new, (∀ depth, htStep ops (depth + 2) t call = some new) ∧ Balanced ops new ∧
      ∀ data, data ∈ htWalk new ↔ data ∈ setStep ops stored call := by
  have placed := balanced.toPlaced
  cases call with
  | lookup query => exact ⟨t, fun _ => rfl, balanced, content⟩
  | remove data =>
      refine ⟨_, fun _ => rfl, htRemove_balanced lawful balanced data, fun other => ?_⟩
      rw [htRemove_walk lawful placed, List.mem_filter, content]
      simp [setStep]
  | insert data =>
      cases found : htLookup ops t data with
      | some other =>
          obtain ⟨member, same⟩ := (htLookup_eq_some_iff lawful placed data other).mp found
          refine ⟨t, fun depth => ?_, balanced, fun x => ?_⟩
          · simp only [htStep, htInsert_duplicate found (depth + 1), Option.map_some]
          · rw [content]
            refine ⟨.inl, fun inside => ?_⟩
            rcases inside with old | ⟨_, fresh⟩
            · exact old
            · rw [fresh other ((content other).mp member)] at same
              cases same
      | none =>
          have fresh := (htLookup_eq_none_iff lawful placed data).mp found
          obtain ⟨new, inserted, balancedNew, walk⟩ := htInsert_new lawful balanced found
          refine ⟨new, fun depth => ?_, balancedNew, fun x => ?_⟩
          · simp only [htStep, inserted depth, Option.map_some]
          · rw [walk.mem_iff, List.mem_cons, content]
            constructor
            · rintro (rfl | old)
              · exact .inr ⟨rfl, fun y member => fresh y ((content y).mpr member)⟩
              · exact .inl old
            · rintro (old | ⟨rfl, _⟩)
              · exact .inr old
              · exact .inl rfl

theorem htRun_refines (lawful : ops.Lawful) (calls : List (HtCall α)) : ∀ {t : Ht α} {stored : Set α},
    Balanced ops t → (∀ data, data ∈ htWalk t ↔ data ∈ stored) →
    ∃ new, (∀ depth, htRun ops (depth + 2) t calls = some new) ∧ Balanced ops new ∧
      ∀ data, data ∈ htWalk new ↔ data ∈ setRun ops stored calls := by
  induction calls with
  | nil => intro t stored balanced content; exact ⟨t, fun _ => rfl, balanced, content⟩
  | cons call rest ih =>
      intro t stored balanced content
      obtain ⟨next, stepped, balanced', content'⟩ := htStep_refines lawful balanced content call
      obtain ⟨new, ran, balancedNew, contentNew⟩ := ih balanced' content'
      refine ⟨new, fun depth => ?_, balancedNew, contentNew⟩
      simp only [htRun, stepped depth, Option.bind_some]
      exact ran depth

theorem htInit_balanced {buckets : Nat} (positive : 0 < buckets) :
    Balanced ops (htInit buckets : Ht α) :=
  ⟨htInit_placed positive, by simp [htOverloaded, htInit]⟩

/-- The hash table refines a finite set: whatever is called on a new table, with
calls of `ht_insert` that nest no deeper than the one inside of a resize, it has
the records that the calls leave in a set. -/
theorem ht_refines_finite_set (lawful : ops.Lawful) {buckets : Nat} (positive : 0 < buckets)
    (calls : List (HtCall α)) :
    ∃ t, (∀ depth, htRun ops (depth + 2) (htInit buckets) calls = some t) ∧
      HtRefines ops t (setRun ops ∅ calls) := by
  obtain ⟨t, ran, balanced, content⟩ := htRun_refines lawful calls (htInit_balanced positive)
    (fun data => by rw [htInit_walk]; simp : ∀ data, data ∈ htWalk (htInit buckets) ↔ data ∈ (∅ : Set α))
  exact ⟨t, ran, balanced.refines lawful content⟩

end Set

/-- Numbers that match when they are equal. -/
def natOps : HtOps Nat := ⟨id, fun a b => a == b⟩

theorem natOps_lawful : natOps.Lawful where
  refl a := by simp [natOps]
  symm a b same := by simp_all [natOps]
  trans a b c first second := by simp_all [natOps]
  hash a b same := by simp_all [natOps]

/-- A table with one bucket is resized twice on the way to three records. -/
theorem one_bucket_refines :
    ∃ t, (∀ depth, htRun natOps (depth + 2) (htInit 1)
        [.insert 3, .insert 5, .insert 7, .insert 5, .remove 3] = some t) ∧
      HtRefines natOps t (setRun natOps ∅ [.insert 3, .insert 5, .insert 7, .insert 5, .remove 3]) :=
  ht_refines_finite_set natOps_lawful (by decide) _

end Mopher
