import Mopher.Ht.Table

/-!
# Hash tables over a part of the records

`ht_hash` and `ht_match` need not be lawful on every value of a type for a table
that only ever holds some of them.  The calls on such a table are those on a table
over the type of these records, read back through the inclusion.
-/

set_option autoImplicit false

namespace Mopher

section Map
variable {α β : Type} (f : α → β) (ops : HtOps β)

def HtOps.comap : HtOps α := ⟨fun a => ops.hash (f a), fun a b => ops.matching (f a) (f b)⟩

def Ht.map (t : Ht α) : Ht β :=
  { table := fun i => (t.table i).map f
    buckets := t.buckets
    records := t.records
    collisions := t.collisions
    head := t.head }

theorem htInit_map (buckets : Nat) : (htInit buckets : Ht α).map f = htInit buckets := rfl

theorem htWalk_map (t : Ht α) : htWalk (t.map f) = (htWalk t).map f := by
  simp only [htWalk, Ht.map, List.map_flatMap]

theorem map_update (table : Nat → List α) (bucket : Nat) (chain : List α) :
    (fun i => (Function.update table bucket chain i).map f) =
      Function.update (fun i => (table i).map f) bucket (chain.map f) := by
  funext i
  by_cases same : i = bucket
  · subst same
    simp only [Function.update_self]
  · simp only [Function.update_of_ne same]

theorem htLookup_map (t : Ht α) (data : α) :
    htLookup ops (t.map f) (f data) = (htLookup (ops.comap f) t data).map f :=
  List.find?_map

theorem htPrepend_map (t : Ht α) (data : α) :
    htPrepend ops (t.map f) (f data) = (htPrepend (ops.comap f) t data).map f := by
  simp only [htPrepend, Ht.map, map_update, List.map_cons, List.isEmpty_map]
  rfl

theorem htRemove_map (t : Ht α) (data : α) :
    htRemove ops (t.map f) (f data) = (htRemove (ops.comap f) t data).map f := by
  have found : ((t.map f).table (htBucket ops (t.map f) (f data))).any (ops.matching (f data)) =
      (t.table (htBucket (ops.comap f) t data)).any ((ops.comap f).matching data) :=
    List.any_map
  have rest : ((t.map f).table (htBucket ops (t.map f) (f data))).eraseP (ops.matching (f data)) =
      ((t.table (htBucket (ops.comap f) t data)).eraseP ((ops.comap f).matching data)).map f :=
    List.eraseP_map
  simp only [htRemove, found, rest]
  split
  · simp only [Ht.map, map_update, List.isEmpty_map, ← List.map_tail]
    rfl
  · rfl

/-- The answer of a call, read back. -/
def mapAnswer (answer : Option (Bool × Ht α)) : Option (Bool × Ht β) :=
  answer.map fun result => (result.1, result.2.map f)

theorem htReinsert_map {insert : Ht α → α → Option (Bool × Ht α)}
    {insert' : Ht β → β → Option (Bool × Ht β)}
    (same : ∀ u data, insert' (u.map f) (f data) = mapAnswer f (insert u data)) (rest : List α) :
    ∀ u : Ht α, htReinsert insert' (u.map f) (rest.map f) = mapAnswer f (htReinsert insert u rest) := by
  induction rest with
  | nil => intro u; rfl
  | cons data rest ih =>
      intro u
      simp only [List.map_cons, htReinsert, same]
      cases insert u data with
      | none => rfl
      | some answer =>
          obtain ⟨accepted, next⟩ := answer
          cases accepted with
          | false => rfl
          | true => exact ih next

theorem htInsert_map (depth : Nat) : ∀ (t : Ht α) (data : α),
    htInsert ops depth (t.map f) (f data) = mapAnswer f (htInsert (ops.comap f) depth t data) := by
  induction depth with
  | zero => intro t data; rfl
  | succ depth ih =>
      intro t data
      have overloaded (u : Ht α) : htOverloaded (u.map f) = htOverloaded u := rfl
      have resized (u : Ht α) : htResize (htInsert ops depth) (u.map f) =
          mapAnswer f (htResize (htInsert (ops.comap f) depth) u) := by
        simp only [htResize, htWalk_map]
        have refilled := htReinsert_map f ih (htWalk u) (htInit (2 * u.buckets))
        rw [htInit_map] at refilled
        have buckets : (u.map f).buckets = u.buckets := rfl
        rw [buckets, refilled]
        cases htReinsert (htInsert (ops.comap f) depth) (htInit (2 * u.buckets)) (htWalk u) with
        | none => rfl
        | some answer =>
            obtain ⟨accepted, next⟩ := answer
            cases accepted with
            | false => rfl
            | true => rfl
      simp only [htInsert, htLookup_map, htPrepend_map, overloaded, resized, Option.isSome_map]
      split
      · rfl
      · split
        · cases htResize (htInsert (ops.comap f) depth) (htPrepend (ops.comap f) t data) with
          | none => rfl
          | some answer => rfl
        · rfl

end Map

end Mopher
