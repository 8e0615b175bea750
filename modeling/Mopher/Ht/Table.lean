import Mathlib

/-!
# The hash table

Model of `ht.c`.  A table is an array of chains; a chain is the list of its
records from the newest to the oldest.  `ht_hash` and `ht_match` are parameters.
Allocations succeed, the load factor is the exact quotient, and bucket counts
are numbers: they stay below 2^30, where the integers of `ht.c` have room for
them.

`ht_resize` fills a new table with `ht_insert`, which may resize that table in
turn.  The first argument of `htInsert` is how deep these calls may nest.
-/

set_option autoImplicit false

namespace Mopher

structure HtOps (α : Type) where
  hash : α → Nat
  matching : α → α → Bool

structure Ht (α : Type) where
  table : Nat → List α
  buckets : Nat
  records : Int
  collisions : Int
  head : Nat

section Model
variable {α : Type}

def htInit (buckets : Nat) : Ht α :=
  { table := fun _ => [], buckets := buckets, records := 0, collisions := 0, head := 0 }

/-- The records in the order in which `ht_walk` visits them. -/
def htWalk (t : Ht α) : List α := (List.range t.buckets).flatMap t.table

variable (ops : HtOps α)

def htBucket (t : Ht α) (data : α) : Nat := ops.hash data % t.buckets

def htLookup (t : Ht α) (data : α) : Option α :=
  (t.table (htBucket ops t data)).find? (ops.matching data)

/-- `ht_insert` puts a record in front of its chain. -/
def htPrepend (t : Ht α) (data : α) : Ht α :=
  let bucket := htBucket ops t data
  { t with
    table := Function.update t.table bucket (data :: t.table bucket)
    collisions := if (t.table bucket).isEmpty then t.collisions else t.collisions + 1
    head := if bucket < t.head ∨ t.records = 0 then bucket else t.head
    records := t.records + 1 }

/-- `HT_LOADFACTOR(ht) > MAX_LOAD`. -/
def htOverloaded (t : Ht α) : Bool := 50 * (t.buckets : Int) < 100 * t.records

/-- The loops of `ht_resize`. -/
def htReinsert (insert : Ht α → α → Option (Bool × Ht α)) : Ht α → List α → Option (Bool × Ht α)
  | new, [] => some (true, new)
  | new, data :: rest =>
      match insert new data with
      | none => none
      | some (false, new) => some (false, new)
      | some (true, new) => htReinsert insert new rest

/-- `ht_resize`; the old table stays when a record cannot be inserted. -/
def htResize (insert : Ht α → α → Option (Bool × Ht α)) (t : Ht α) : Option (Bool × Ht α) :=
  match htReinsert insert (htInit (2 * t.buckets)) (htWalk t) with
  | none => none
  | some (false, _) => some (false, t)
  | some (true, new) => some (true, new)

/-- `ht_insert`; `false` is the return value -1.  A resize that fails is only
logged.  There is no result when the calls nest too deep. -/
def htInsert : Nat → Ht α → α → Option (Bool × Ht α)
  | 0, _, _ => none
  | depth + 1, t, data =>
      if (htLookup ops t data).isSome then some (false, t)
      else if htOverloaded (htPrepend ops t data) then
        (htResize (htInsert depth) (htPrepend ops t data)).map fun result => (true, result.2)
      else some (true, htPrepend ops t data)

/-- `ht_remove`.  Where a chain had more than one record, collisions are counted
down twice. -/
def htRemove (t : Ht α) (data : α) : Ht α :=
  let bucket := htBucket ops t data
  let chain := t.table bucket
  if chain.any (ops.matching data) then
    let rest := chain.eraseP (ops.matching data)
    { t with
      table := Function.update t.table bucket rest
      collisions := t.collisions - (if rest.isEmpty then 0 else 1) -
        (if chain.tail.isEmpty then 0 else 1)
      records := t.records - 1 }
  else t

inductive HtCall (α : Type) where
  | insert (data : α)
  | lookup (data : α)
  | remove (data : α)

def htStep (depth : Nat) (t : Ht α) : HtCall α → Option (Ht α)
  | .insert data => (htInsert ops depth t data).map Prod.snd
  | .lookup _ => some t
  | .remove data => some (htRemove ops t data)

def htRun (depth : Nat) (t : Ht α) : List (HtCall α) → Option (Ht α)
  | [] => some t
  | call :: rest => (htStep ops depth t call).bind fun next => htRun depth next rest

end Model

/-! ## The representation -/

/-- Records that match have one hash, and matching is an equivalence. -/
structure HtOps.Lawful {α : Type} (ops : HtOps α) : Prop where
  refl : ∀ a, ops.matching a a = true
  symm : ∀ a b, ops.matching a b = true → ops.matching b a = true
  trans : ∀ a b c, ops.matching a b = true → ops.matching b c = true → ops.matching a c = true
  hash : ∀ a b, ops.matching a b = true → ops.hash a = ops.hash b

/-- Every record is in the chain of its hash, no two of a chain match, and
`ht_records` and `ht_head` fit the chains. -/
structure Placed {α : Type} (ops : HtOps α) (t : Ht α) : Prop where
  positive : 0 < t.buckets
  bucket : ∀ i data, data ∈ t.table i → i = htBucket ops t data
  distinct : ∀ i, (t.table i).Pairwise fun a b => ops.matching a b = false
  records : t.records = (htWalk t).length
  head : ∀ i, t.table i ≠ [] → t.head ≤ i

/-- A table between two calls: the load is not exceeded. -/
structure Balanced {α : Type} (ops : HtOps α) (t : Ht α) : Prop extends Placed ops t where
  load : htOverloaded t = false

section Chains
variable {α : Type}

/-- Replacing one chain replaces one segment of the walk. -/
theorem flatMap_update (f : Nat → List α) {bucket : Nat} {l : List Nat} (nodup : l.Nodup)
    (member : bucket ∈ l) : ∃ before after, l.flatMap f = before ++ (f bucket ++ after) ∧
      ∀ chain, l.flatMap (Function.update f bucket chain) = before ++ (chain ++ after) := by
  obtain ⟨front, back, rfl⟩ := List.append_of_mem member
  have fresh : bucket ∉ front ∧ bucket ∉ back := by
    have split := List.nodup_append.mp nodup
    refine ⟨fun inside => ?_, (List.nodup_cons.mp split.2.1).1⟩
    exact split.2.2 bucket inside bucket List.mem_cons_self rfl
  have kept (chain : List α) (part : List Nat) (absent : bucket ∉ part) :
      part.flatMap (Function.update f bucket chain) = part.flatMap f := by
    apply List.flatMap_congr
    intro i inside
    refine Function.update_of_ne ?_ _ _
    rintro rfl
    exact absent inside
  refine ⟨front.flatMap f, back.flatMap f, by simp, fun chain => ?_⟩
  simp only [List.flatMap_append, List.flatMap_cons, Function.update_self]
  rw [kept chain front fresh.1, kept chain back fresh.2]

variable {ops : HtOps α} {t : Ht α}

theorem htBucket_lt (ops : HtOps α) (positive : 0 < t.buckets) (data : α) :
    htBucket ops t data < t.buckets :=
  Nat.mod_lt _ positive

theorem Placed.bucket_lt (placed : Placed ops t) {i : Nat} (filled : t.table i ≠ []) :
    i < t.buckets := by
  obtain ⟨data, member⟩ := List.exists_mem_of_ne_nil _ filled
  rw [placed.bucket i data member]
  exact htBucket_lt ops placed.positive data

theorem Placed.mem_walk (placed : Placed ops t) {data : α} :
    data ∈ htWalk t ↔ data ∈ t.table (htBucket ops t data) := by
  simp only [htWalk, List.mem_flatMap, List.mem_range]
  constructor
  · rintro ⟨i, _, member⟩
    rwa [placed.bucket i data member] at member
  · intro member
    exact ⟨_, htBucket_lt ops placed.positive data, member⟩

theorem Placed.table_walk (placed : Placed ops t) {i : Nat} {data : α} (member : data ∈ t.table i) :
    data ∈ htWalk t := by
  rw [placed.mem_walk, ← placed.bucket i data member]
  exact member

/-- Records that match are in one chain. -/
theorem bucket_of_matching (lawful : ops.Lawful) {a b : α} (same : ops.matching a b = true) :
    htBucket ops t a = htBucket ops t b := by
  simp only [htBucket, lawful.hash a b same]

theorem unmatched_symm (lawful : ops.Lawful) {a b : α} (differ : ops.matching a b = false) :
    ops.matching b a = false := by
  rw [Bool.eq_false_iff] at differ ⊢
  exact fun same => differ (lawful.symm b a same)

/-- No two records of the table match. -/
theorem Placed.walk_distinct (lawful : ops.Lawful) (placed : Placed ops t) :
    (htWalk t).Pairwise fun a b => ops.matching a b = false := by
  simp only [htWalk, List.pairwise_flatMap]
  refine ⟨fun i _ => placed.distinct i, ?_⟩
  refine List.nodup_range.imp ?_
  intro i j distinct a inI b inJ
  rw [Bool.eq_false_iff]
  intro same
  apply distinct
  rw [placed.bucket i a inI, placed.bucket j b inJ, bucket_of_matching lawful same]

theorem eq_of_matching (lawful : ops.Lawful) {l : List α}
    (distinct : l.Pairwise fun a b => ops.matching a b = false) {a b : α} (inA : a ∈ l)
    (inB : b ∈ l) (same : ops.matching a b = true) : a = b := by
  by_contra differ
  have : Std.Symm fun a b => ops.matching a b = false := ⟨fun a b => unmatched_symm lawful⟩
  have apart := distinct.forall inA inB differ
  rw [apart] at same
  cases same

/-- `ht_lookup` returns the record of the table that matches. -/
theorem htLookup_eq_some_iff (lawful : ops.Lawful) (placed : Placed ops t) (query data : α) :
    htLookup ops t query = some data ↔ data ∈ htWalk t ∧ ops.matching query data = true := by
  unfold htLookup
  constructor
  · intro found
    exact ⟨placed.table_walk (List.mem_of_find?_eq_some found), List.find?_some found⟩
  · rintro ⟨member, same⟩
    rw [placed.mem_walk, ← bucket_of_matching lawful same] at member
    cases found : (t.table (htBucket ops t query)).find? (ops.matching query) with
    | none => exact absurd same (List.find?_eq_none.mp found data member)
    | some other =>
        have other' : ops.matching query other = true := List.find?_some found
        have both := lawful.trans _ _ _ (lawful.symm _ _ same) other'
        rw [eq_of_matching lawful (placed.distinct _) member (List.mem_of_find?_eq_some found) both]

theorem htLookup_eq_none_iff (lawful : ops.Lawful) (placed : Placed ops t) (query : α) :
    htLookup ops t query = none ↔ ∀ data ∈ htWalk t, ops.matching query data = false := by
  rw [Option.eq_none_iff_forall_ne_some]
  simp only [ne_eq, htLookup_eq_some_iff lawful placed, not_and, Bool.not_eq_true]

end Chains

end Mopher
