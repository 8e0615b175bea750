import Mopher.Ht.Refine

/-!
# Iteration over the hash table

Model of `ht_start` and `ht_next`.  The iteration starts at `ht_head`, which
`ht_insert` moves down to the bucket of a new record and which `ht_remove` never
moves.  Once the last record of the chain at `ht_head` is removed and others are
left, the iteration ends before it returns any of them.
-/

set_option autoImplicit false

namespace Mopher

/-- `ht_pos_t`.  A record is given with the records that follow it in its chain;
the empty list is the null pointer. -/
structure HtPos (α : Type) where
  bucket : Nat
  record : List α

section Model
variable {α : Type}

def htStart (t : Ht α) : HtPos α :=
  if t.records = 0 then ⟨0, []⟩ else ⟨t.head, t.table t.head⟩

/-- The loop of `ht_next` over the buckets from `i` on, of which there are
`left`: it stops at the first chain that is not empty. -/
def htSkip (t : Ht α) (i : Nat) : Nat → Nat
  | 0 => i
  | left + 1 => if (t.table i).isEmpty then htSkip t (i + 1) left else i

def htNext (t : Ht α) (pos : HtPos α) : Option α × HtPos α :=
  match pos.record with
  | [] => (none, pos)
  | data :: next :: rest => (some data, ⟨pos.bucket, next :: rest⟩)
  | [data] =>
      let i := htSkip t (pos.bucket + 1) (t.buckets - (pos.bucket + 1))
      if i = t.buckets then (some data, ⟨0, []⟩) else (some data, ⟨i, t.table i⟩)

/-- What `n` calls of `ht_next` return. -/
def htNexts (t : Ht α) : Nat → HtPos α → List (Option α)
  | 0, _ => []
  | n + 1, pos => (htNext t pos).1 :: htNexts t n (htNext t pos).2

/-- The calls of `ht_next` after `ht_start` return every record that `ht_walk`
visits exactly once and then the null pointer. -/
def IterationComplete (t : Ht α) : Prop :=
  ∃ l : List α, l.Perm (htWalk t) ∧ htNexts t (l.length + 1) (htStart t) = l.map some ++ [none]

/-- `ht_remove` of `data` takes the last record out of the chain at `ht_head`, and
the table has other records. -/
def EmptiesHead (ops : HtOps α) (t : Ht α) (data : α) : Prop :=
  1 < t.records ∧ htBucket ops t data = t.head ∧
    ∃ record, t.table t.head = [record] ∧ ops.matching data record = true

end Model

/-! ## The rest of an iteration -/

section Rest
variable {α : Type} {t : Ht α}

/-- The records in the buckets from `i` on. -/
def recordsFrom (t : Ht α) (i : Nat) : List α :=
  (List.range' i (t.buckets - i)).flatMap t.table

theorem recordsFrom_zero : recordsFrom t 0 = htWalk t := by
  simp only [recordsFrom, htWalk, List.range_eq_range', Nat.sub_zero]

theorem recordsFrom_cons {i : Nat} (inside : i < t.buckets) :
    recordsFrom t i = t.table i ++ recordsFrom t (i + 1) := by
  have count : t.buckets - i = (t.buckets - (i + 1)) + 1 := by omega
  simp only [recordsFrom]
  rw [count, List.range'_succ, List.flatMap_cons]

theorem recordsFrom_end {i : Nat} (outside : t.buckets ≤ i) : recordsFrom t i = [] := by
  have count : t.buckets - i = 0 := by omega
  simp only [recordsFrom, count, List.range'_zero, List.flatMap_nil]

/-- Chains that are empty do not count. -/
theorem recordsFrom_skip (i : Nat) (empty : ∀ j < i, t.table j = []) (inside : i ≤ t.buckets) :
    htWalk t = recordsFrom t i := by
  induction i with
  | zero => exact recordsFrom_zero.symm
  | succ i ih =>
      rw [ih (fun j below => empty j (by omega)) (by omega), recordsFrom_cons (by omega),
        empty i (by omega), List.nil_append]

/-- The bucket at which the loop of `ht_next` stops. -/
theorem htSkip_spec (left : Nat) : ∀ i, i + left = t.buckets →
    recordsFrom t (htSkip t i left) = recordsFrom t i ∧
      (htSkip t i left = t.buckets ∨
        htSkip t i left < t.buckets ∧ t.table (htSkip t i left) ≠ []) := by
  induction left with
  | zero =>
      intro i last
      exact ⟨rfl, .inl (by simpa [htSkip] using last)⟩
  | succ left ih =>
      intro i last
      cases chain : t.table i with
      | nil =>
          obtain ⟨same, stops⟩ := ih (i + 1) (by omega)
          have skip : htSkip t i (left + 1) = htSkip t (i + 1) left := by simp [htSkip, chain]
          rw [skip]
          refine ⟨?_, stops⟩
          rw [same, recordsFrom_cons (i := i) (by omega), chain, List.nil_append]
      | cons data rest =>
          have stop : htSkip t i (left + 1) = i := by simp [htSkip, chain]
          rw [stop]
          refine ⟨rfl, .inr ⟨by omega, ?_⟩⟩
          rw [chain]
          exact List.cons_ne_nil _ _

/-- The records that are still to be returned. -/
def remaining (t : Ht α) (pos : HtPos α) : List α :=
  match pos.record with
  | [] => []
  | data :: rest => data :: rest ++ recordsFrom t (pos.bucket + 1)

theorem htNext_end {pos : HtPos α} (ended : pos.record = []) : htNext t pos = (none, pos) := by
  simp only [htNext, ended]

/-- `ht_next` returns the first of the remaining records and leaves the others. -/
theorem htNext_spec {pos : HtPos α} {data : α} {rest : List α} (inside : pos.bucket < t.buckets)
    (records : pos.record = data :: rest) :
    (htNext t pos).1 = some data ∧ remaining t pos = data :: remaining t (htNext t pos).2 ∧
      ((htNext t pos).2.record ≠ [] → (htNext t pos).2.bucket < t.buckets) := by
  cases rest with
  | cons next rest => simp [htNext, remaining, records, inside]
  | nil =>
      obtain ⟨same, stops⟩ := htSkip_spec (t := t) (t.buckets - (pos.bucket + 1)) (pos.bucket + 1)
        (by omega)
      have here : remaining t pos = data :: recordsFrom t (pos.bucket + 1) := by
        simp only [remaining, records, List.cons_append, List.nil_append]
      rw [here, ← same]
      simp only [htNext, records]
      rcases stops with last | ⟨below, filled⟩
      · rw [last, if_pos rfl]
        refine ⟨rfl, ?_, fun absurd' => (absurd' rfl).elim⟩
        rw [recordsFrom_end (Nat.le_refl _)]
        rfl
      · rw [if_neg (by omega)]
        refine ⟨rfl, ?_, fun _ => below⟩
        rw [recordsFrom_cons below]
        obtain ⟨first, chain, split⟩ := List.exists_cons_of_ne_nil filled
        simp only [remaining, split]

theorem htNexts_remaining (l : List α) : ∀ pos : HtPos α,
    (pos.record ≠ [] → pos.bucket < t.buckets) → remaining t pos = l →
    htNexts t (l.length + 1) pos = l.map some ++ [none] := by
  induction l with
  | nil =>
      intro pos _ nothing
      have ended : pos.record = [] := by
        cases records : pos.record with
        | nil => rfl
        | cons data rest => simp [remaining, records] at nothing
      simp only [List.length_nil, htNexts, htNext_end ended, List.map_nil, List.nil_append]
  | cons data l ih =>
      intro pos inside rest
      cases records : pos.record with
      | nil => simp [remaining, records] at rest
      | cons first others =>
          obtain ⟨returned, split, inside'⟩ := htNext_spec (inside (by simp [records])) records
          rw [split] at rest
          obtain ⟨rfl, rest'⟩ := List.cons.inj rest
          have later := ih _ inside' rest'
          rw [List.length_cons, htNexts, returned, later]
          rfl

end Rest

/-! ## The head of the table -/

section Head
variable {α : Type} {ops : HtOps α} {t : Ht α}

/-- The chain at `ht_head` has a record unless the table has none. -/
def Headed (t : Ht α) : Prop := t.records = 0 ∨ t.table t.head ≠ []

/-- An iteration that starts at a record has the records of the walk before it. -/
theorem remaining_htStart (placed : Placed ops t) (headed : Headed t) :
    remaining t (htStart t) = htWalk t := by
  rcases headed with none' | filled
  · have length := placed.records
    rw [none', eq_comm, Int.natCast_eq_zero, List.length_eq_zero_iff] at length
    simp only [htStart, none', if_true, remaining, length]
  · have inside := placed.bucket_lt filled
    have lower : ∀ i < t.head, t.table i = [] := by
      intro i below
      by_contra filled'
      have := placed.head i filled'
      omega
    have some' : t.records ≠ 0 := by
      intro none'
      have length := placed.records
      rw [none', eq_comm, Int.natCast_eq_zero, List.length_eq_zero_iff] at length
      obtain ⟨data, member⟩ := List.exists_mem_of_ne_nil _ filled
      have visited := placed.table_walk member
      rw [length] at visited
      cases visited
    rw [recordsFrom_skip t.head lower (by omega), recordsFrom_cons inside]
    obtain ⟨first, chain, split⟩ := List.exists_cons_of_ne_nil filled
    simp only [htStart, if_neg some', remaining, split]

/-- The iteration is complete exactly when it starts at a record. -/
theorem iterationComplete_iff (placed : Placed ops t) : IterationComplete t ↔ Headed t := by
  constructor
  · rintro ⟨l, same, returned⟩
    by_contra headless
    simp only [Headed, not_or, not_not] at headless
    obtain ⟨some', empty⟩ := headless
    have start : (htStart t).record = [] := by simp only [htStart, if_neg some', empty]
    cases l with
    | nil =>
        apply some'
        rw [placed.records, ← same.length_eq]
        rfl
    | cons data l =>
        simp only [List.length_cons, htNexts, htNext_end start, List.map_cons, List.cons_append] at returned
        cases (List.cons.inj returned).1
  · intro headed
    refine ⟨htWalk t, List.Perm.refl _, ?_⟩
    apply htNexts_remaining
    · intro filled
      by_cases none' : t.records = 0
      · simp [htStart, none'] at filled
      · simp only [htStart, if_neg none'] at filled ⊢
        exact placed.bucket_lt filled
    · exact remaining_htStart placed headed

theorem htPrepend_headed (headed : Headed t) (data : α) : Headed (htPrepend ops t data) := by
  right
  simp only [htPrepend]
  split
  · rw [Function.update_self]
    exact List.cons_ne_nil _ _
  · rename_i later
    have filled : t.table t.head ≠ [] := by
      rcases headed with none' | filled
      · exact (later (.inr none')).elim
      · exact filled
    by_cases same : t.head = htBucket ops t data
    · rw [same, Function.update_self]
      exact List.cons_ne_nil _ _
    · rw [Function.update_of_ne same]
      exact filled

/-- `ht_insert` keeps a record in the chain at `ht_head`, also across a resize. -/
theorem htInsert_headed (ops : HtOps α) (depth : Nat) : ∀ u data result, Headed u →
    htInsert ops depth u data = some result → Headed result.2 := by
  apply htInsert_invariant
  · intro u _
    exact .inl rfl
  · intro u data headed
    exact htPrepend_headed headed data

/-- `ht_remove` keeps a record in the chain at `ht_head` unless it takes the last
one out. -/
theorem htRemove_headed_iff (placed : Placed ops t) (headed : Headed t) (data : α) :
    Headed (htRemove ops t data) ↔ ¬ EmptiesHead ops t data := by
  cases found : (t.table (htBucket ops t data)).any (ops.matching data) with
  | false =>
      rw [htRemove_absent found]
      refine iff_of_true headed ?_
      rintro ⟨_, bucket, record, chain, same⟩
      rw [bucket, chain] at found
      simp [same] at found
  | true =>
      obtain ⟨record, member, same⟩ := List.any_eq_true.mp found
      have some' : 0 < t.records := by
        have := List.length_pos_of_mem (placed.table_walk member)
        rw [placed.records]
        omega
      have filled : t.table t.head ≠ [] := by
        rcases headed with none' | filled
        · omega
        · exact filled
      simp only [Headed, EmptiesHead, htRemove, found, if_true]
      by_cases here : t.head = htBucket ops t data
      · rw [← here, Function.update_self]
        have shorter : ((t.table t.head).eraseP (ops.matching data)).length =
            (t.table t.head).length - 1 := by
          rw [← here] at member
          exact List.length_eraseP_of_mem member same
        constructor
        · rintro left ⟨more, _, last, chain, _⟩
          rcases left with none' | rest
          · omega
          · apply rest
            rw [← List.length_eq_zero_iff, shorter, chain]
            rfl
        · intro stays
          by_contra none'
          rw [not_or, not_not] at none'
          rw [none'.2, List.length_nil] at shorter
          rw [← here] at member
          have single : (t.table t.head).length = 1 := by
            have := List.length_pos_of_mem member
            omega
          obtain ⟨last, chain⟩ := List.length_eq_one_iff.mp single
          apply stays
          refine ⟨by omega, rfl, last, chain, ?_⟩
          rw [chain, List.mem_singleton] at member
          exact member ▸ same
      · rw [Function.update_of_ne here]
        exact iff_of_true (.inr filled) fun emptied => here emptied.2.1.symm

end Head

/-! ## Runs -/

section Runs
variable {α : Type} {ops : HtOps α}

theorem htRun_append (depth : Nat) (front back : List (HtCall α)) : ∀ t : Ht α,
    htRun ops depth t (front ++ back) =
      (htRun ops depth t front).bind fun next => htRun ops depth next back := by
  induction front with
  | nil => intro t; rfl
  | cons call front ih =>
      intro t
      simp only [List.cons_append, htRun]
      cases htStep ops depth t call with
      | none => rfl
      | some next => exact ih next

/-- `P` holds of every removal that the run comes to. -/
def EachRemoval (ops : HtOps α) (depth : Nat) (P : Ht α → α → Prop) (t : Ht α)
    (calls : List (HtCall α)) : Prop :=
  ∀ front data back, calls = front ++ .remove data :: back →
    ∀ u, htRun ops depth t front = some u → P u data

theorem EachRemoval.append_left {depth : Nat} {P : Ht α → α → Prop} {t : Ht α}
    {front back : List (HtCall α)} (each : EachRemoval ops depth P t (front ++ back)) :
    EachRemoval ops depth P t front := by
  intro front' data back' split
  apply each front' data (back' ++ back)
  rw [split, List.append_assoc, List.cons_append]

/-- What insertions keep, and removals of which `P` holds, holds after a run. -/
theorem htRun_invariant {Inv : Ht α → Prop} {P : Ht α → α → Prop} {depth : Nat}
    (insert : ∀ u data result, Inv u → htInsert ops depth u data = some result → Inv result.2)
    (remove : ∀ u data, Inv u → P u data → Inv (htRemove ops u data)) (calls : List (HtCall α)) :
    ∀ t, Inv t → EachRemoval ops depth P t calls →
      ∀ u, htRun ops depth t calls = some u → Inv u := by
  induction calls with
  | nil => intro t holds _ u ran; cases ran; exact holds
  | cons call rest ih =>
      intro t holds each u ran
      obtain ⟨next, stepped, ran⟩ := Option.bind_eq_some_iff.mp ran
      have holds' : Inv next := by
        cases call with
        | lookup query => cases stepped; exact holds
        | remove data =>
            cases stepped
            exact remove t data holds (each [] data rest rfl t rfl)
        | insert data =>
            obtain ⟨result, inserted, rfl⟩ := Option.map_eq_some_iff.mp stepped
            exact insert t data result holds inserted
      refine ih next holds' ?_ u ran
      intro front data back split v reached
      refine each (call :: front) data back (by rw [split]; rfl) v ?_
      simp only [htRun, stepped, Option.bind_some, reached]

/-- A run whose removals leave the head of the table filled. -/
def KeepsHead (ops : HtOps α) (depth : Nat) (t : Ht α) (calls : List (HtCall α)) : Prop :=
  ∀ front data back, calls = front ++ .remove data :: back →
    ∀ u, htRun ops depth t front = some u → ¬ EmptiesHead ops u data

theorem htInsert_balanced (lawful : ops.Lawful) {t : Ht α} (balanced : Balanced ops t) (depth : Nat)
    {data : α} {result : Bool × Ht α} (inserted : htInsert ops (depth + 2) t data = some result) :
    Balanced ops result.2 := by
  have content (data : α) : data ∈ htWalk t ↔ data ∈ { data | data ∈ htWalk t } := Iff.rfl
  obtain ⟨next, stepped, balanced', _⟩ := htStep_refines lawful balanced content (.insert data)
  have answer := stepped depth
  rw [htStep, inserted, Option.map_some, Option.some.injEq] at answer
  rw [answer]
  exact balanced'

theorem htRun_headed (lawful : ops.Lawful) (depth : Nat) (calls : List (HtCall α)) (t : Ht α)
    (balanced : Balanced ops t) (headed : Headed t) (kept : KeepsHead ops (depth + 2) t calls)
    (u : Ht α) (ran : htRun ops (depth + 2) t calls = some u) : Headed u := by
  suffices Balanced ops u ∧ Headed u from this.2
  refine @htRun_invariant _ ops (fun u => Balanced ops u ∧ Headed u) _ _ ?_ ?_ calls t
    ⟨balanced, headed⟩ kept u ran
  · intro u data result holds inserted
    exact ⟨htInsert_balanced lawful holds.1 depth inserted, htInsert_headed ops _ _ _ _ holds.2 inserted⟩
  · intro u data holds spared
    exact ⟨htRemove_balanced lawful holds.1 data,
      (htRemove_headed_iff holds.1.toPlaced holds.2 data).mpr spared⟩

/-- The iteration is complete after each of the calls on a new table exactly when
no removal empties the chain at `ht_head` of a table that has other records. -/
theorem iteration_complete_iff (lawful : ops.Lawful) {buckets : Nat} (positive : 0 < buckets)
    (depth : Nat) (calls : List (HtCall α)) :
    (∀ front back, calls = front ++ back →
      ∃ t, htRun ops (depth + 2) (htInit buckets) front = some t ∧ IterationComplete t) ↔
      KeepsHead ops (depth + 2) (htInit buckets) calls := by
  have reach (front : List (HtCall α)) :
      ∃ t, htRun ops (depth + 2) (htInit buckets) front = some t ∧ Balanced ops t := by
    have content (data : α) : data ∈ htWalk (htInit buckets) ↔ data ∈ (∅ : Set α) := by
      rw [htInit_walk]
      simp
    obtain ⟨t, ran, balanced, _⟩ := htRun_refines lawful front (htInit_balanced positive) content
    exact ⟨t, ran depth, balanced⟩
  constructor
  · -- a removal that empties the head is seen in the table after it
    intro complete front data back split u ran emptied
    obtain ⟨u', ran', balanced⟩ := reach front
    obtain rfl : u = u' := Option.some.inj (ran.symm.trans ran')
    have headed : Headed u := by
      obtain ⟨t, ran'', complete'⟩ := complete front (.remove data :: back) split
      obtain rfl : u = t := Option.some.inj (ran.symm.trans ran'')
      exact (iterationComplete_iff balanced.toPlaced).mp complete'
    obtain ⟨next, ran'', complete'⟩ :=
      complete (front ++ [.remove data]) back (by rw [split]; simp)
    rw [htRun_append, ran, Option.bind_some] at ran''
    obtain rfl : htRemove ops u data = next := by simpa [htRun, htStep] using ran''
    have placed := (htRemove_balanced lawful balanced data).toPlaced
    have headed' := (iterationComplete_iff placed).mp complete'
    exact (htRemove_headed_iff balanced.toPlaced headed data).mp headed' emptied
  · intro kept front back split
    obtain ⟨t, ran, balanced⟩ := reach front
    refine ⟨t, ran, (iterationComplete_iff balanced.toPlaced).mpr ?_⟩
    refine htRun_headed lawful depth front _ (htInit_balanced positive) (.inl rfl) ?_ t ran
    rw [split] at kept
    exact EachRemoval.append_left kept

end Runs

/-- Records 1 and 2 are in the buckets of their numbers, and the iteration starts
at record 1. -/
theorem removal_behind_the_head_is_harmless :
    KeepsHead natOps 2 (htInit 4) [.insert 1, .insert 2, .remove 2] ∧
      ∃ t, htRun natOps 2 (htInit 4) [.insert 1, .insert 2, .remove 2] = some t ∧ IterationComplete t := by
  have kept : KeepsHead natOps 2 (htInit 4) [.insert 1, .insert 2, .remove 2] := by
    intro front data back split u ran emptied
    obtain ⟨rfl, rfl⟩ : front = [.insert 1, .insert 2] ∧ data = 2 := by
      clear ran emptied
      rcases front with _ | ⟨first, _ | ⟨second, _ | ⟨third, rest⟩⟩⟩ <;>
        grind [List.append_eq_nil_iff]
    have head : (htRun natOps 2 (htInit 4) [.insert 1, .insert 2]).map
        (fun t => decide (htBucket natOps t 2 = t.head)) = some false := by decide
    rw [ran, Option.map_some, Option.some.injEq, decide_eq_false_iff_not] at head
    exact head emptied.2.1
  exact ⟨kept, (iteration_complete_iff natOps_lawful (by decide) 0 _).mpr kept _ [] (List.append_nil _).symm⟩

/-- The iteration over a table whose first record was removed returns nothing,
though `ht_walk` still visits record 2. -/
theorem iteration_misses_a_record : ∃ t,
    htRun natOps 2 (htInit 4) [.insert 1, .insert 2, .remove 1] = some t ∧ htWalk t = [2] ∧
      (htNext t (htStart t)).1 = none ∧ ¬ IterationComplete t := by
  refine ⟨_, rfl, by decide, by decide, ?_⟩
  rintro ⟨l, same, returned⟩
  obtain ⟨data, l, rfl⟩ : ∃ data rest, l = data :: rest := by
    refine List.exists_cons_of_ne_nil ?_
    rintro rfl
    exact absurd same.length_eq (by decide)
  cases (List.cons.inj returned).1

end Mopher
