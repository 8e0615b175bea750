import Mathlib

/-!
# Trees as functions of paths

A tree with labelled nodes is given by the label at each path, if there is a node.
An assignment puts a tree at a path: what is below the path is the new tree, the
nodes on the way to it are inner nodes, and every other path keeps what it had.
-/

set_option autoImplicit false

namespace PathStore

abbrev Store (K L : Type) := List K → Option L

section Stores
variable {K L : Type} [DecidableEq K]

/-- `inner` is the label of the nodes on the way. -/
def assign (inner : L) (store : Store K L) (path : List K) (tree : Store K L) : Store K L :=
  fun probe =>
    if path <+: probe then tree (probe.drop path.length)
    else if probe <+: path then some inner
    else store probe

/-- The part of a tree at a path. -/
def below (store : Store K L) (path : List K) : Store K L := fun rest => store (path ++ rest)

/-- Assignments in order. -/
def replay (inner : L) (store : Store K L) (assignments : List (List K × Store K L)) : Store K L :=
  assignments.foldl (fun store a => assign inner store a.1 a.2) store

@[simp] theorem assign_root (inner : L) (store tree : Store K L) : assign inner store [] tree = tree := by
  funext probe
  simp [assign]

@[simp] theorem assign_cons_nil (inner : L) (store tree : Store K L) (key : K) (path : List K) :
    assign inner store (key :: path) tree [] = some inner := by
  simp [assign]

/-- Behind the first key an assignment is one to the subtree, and beside it nothing
changes. -/
theorem assign_cons_cons (inner : L) (store tree : Store K L) (key probe : K) (path rest : List K) :
    assign inner store (key :: path) tree (probe :: rest) =
      if probe = key then assign inner (below store [key]) path tree rest
      else store (probe :: rest) := by
  by_cases same : probe = key
  · subst same
    simp [assign, below]
  · simp [assign, List.cons_prefix_cons, same, Ne.symm same]

/-- What the root was does not matter to an assignment below it. -/
theorem assign_congr {inner : L} {store store' tree : Store K L} {path : List K} (deeper : path ≠ [])
    (same : ∀ key rest, store (key :: rest) = store' (key :: rest)) :
    assign inner store path tree = assign inner store' path tree := by
  funext probe
  unfold assign
  cases probe with
  | nil => simp [deeper]
  | cons key rest => rw [same key rest]

end Stores

end PathStore
