import Mathlib

/-!
# Graphs of nodes and the trees they stand for

Nodes are kept in a list and name each other by their positions.  A node stands for a
tree, which is made of the trees of the nodes that it names; the tree is found by
following the names, as long as there is fuel.  In a graph with a cycle no fuel is
enough.

Nodes that are added leave every tree as it is.  A node that is replaced leaves the
trees of the others as they are, if none of them names it.
-/

set_option autoImplicit false

universe u v

/-- What a node names, and the tree that it stands for when those of the nodes that it
names are given.  The tree depends on these only, and needs all of them. -/
structure NodeKind (N : Type u) (T : Type v) where
  children : N → List Nat
  build : (Nat → Option T) → Nat → N → Option T
  mono : ∀ {f g : Nat → Option T} {self : Nat} {node : N} {t : T},
    (∀ c ∈ children node, ∀ t, f c = some t → g c = some t) → build f self node = some t →
      build g self node = some t
  strict : ∀ {f : Nat → Option T} {self : Nat} {node : N} {t : T}, build f self node = some t →
    ∀ c ∈ children node, (f c).isSome = true

namespace NodeKind

variable {N : Type u} {T : Type v} (kind : NodeKind N T)

/-- The tree of a node, found with the fuel. -/
def follow (nodes : List N) : Nat → Nat → Option T
  | 0, _ => none
  | fuel + 1, n => (nodes[n]?).bind (kind.build (follow nodes fuel) n)

/-- The node stands for the tree. -/
def HasTree (nodes : List N) (n : Nat) (t : T) : Prop := ∃ fuel, kind.follow nodes fuel n = some t

/-- The second node names the first one. -/
def Child (nodes : List N) (c n : Nat) : Prop :=
  ∃ node, nodes[n]? = some node ∧ c ∈ kind.children node

/-- No node names it. -/
def Unreferenced (nodes : List N) (k : Nat) : Prop :=
  ∀ (n : Nat) (node : N), nodes[n]? = some node → k ∉ kind.children node

/-- Every node stands for a tree. -/
def Whole (nodes : List N) : Prop := ∀ n, n < nodes.length → ∃ t, kind.HasTree nodes n t

section Trees
variable {kind} {nodes nodes' : List N}

/-- Nodes that are the same in two graphs, and name only such nodes, stand for the same. -/
theorem follow_agree {S : Nat → Prop}
    (same : ∀ n node, S n → nodes[n]? = some node →
      nodes'[n]? = some node ∧ ∀ c ∈ kind.children node, S c) (fuel : Nat) :
    ∀ {n : Nat} {t : T}, S n → kind.follow nodes fuel n = some t →
      kind.follow nodes' fuel n = some t := by
  induction fuel with
  | zero => intro n t _ found; cases found
  | succ fuel ih =>
      intro n t inside found
      obtain ⟨node, here, built⟩ := Option.bind_eq_some_iff.mp found
      obtain ⟨here', closed⟩ := same n node inside here
      refine Option.bind_eq_some_iff.mpr ⟨node, here', ?_⟩
      refine kind.mono ?_ built
      intro c member t found
      exact ih (closed c member) found

theorem follow_succ (fuel : Nat) : ∀ {n : Nat} {t : T}, kind.follow nodes fuel n = some t →
    kind.follow nodes (fuel + 1) n = some t := by
  induction fuel with
  | zero => intro n t found; cases found
  | succ fuel ih =>
      intro n t found
      obtain ⟨node, here, built⟩ := Option.bind_eq_some_iff.mp found
      refine Option.bind_eq_some_iff.mpr ⟨node, here, ?_⟩
      exact kind.mono (fun c _ t found => ih found) built

/-- More fuel does no harm. -/
theorem follow_le {fuel fuel' : Nat} (le : fuel ≤ fuel') {n : Nat} {t : T}
    (found : kind.follow nodes fuel n = some t) : kind.follow nodes fuel' n = some t := by
  induction le with
  | refl => exact found
  | step _ ih => exact follow_succ _ ih

theorem HasTree.unique {n : Nat} {t t' : T} (first : kind.HasTree nodes n t)
    (second : kind.HasTree nodes n t') : t = t' := by
  obtain ⟨fuel, found⟩ := first
  obtain ⟨fuel', found'⟩ := second
  have left := follow_le (Nat.le_max_left fuel fuel') found
  have right := follow_le (Nat.le_max_right fuel fuel') found'
  exact Option.some.inj (left.symm.trans right)

theorem HasTree.bound {n : Nat} {t : T} (tree : kind.HasTree nodes n t) : n < nodes.length := by
  obtain ⟨fuel, found⟩ := tree
  cases fuel with
  | zero => cases found
  | succ fuel =>
      obtain ⟨node, here, _⟩ := Option.bind_eq_some_iff.mp found
      exact (List.getElem?_eq_some_iff.mp here).1

theorem HasTree.child {n c : Nat} {t : T} (tree : kind.HasTree nodes n t)
    (child : kind.Child nodes c n) : ∃ t', kind.HasTree nodes c t' := by
  obtain ⟨fuel, found⟩ := tree
  obtain ⟨node, here, member⟩ := child
  cases fuel with
  | zero => cases found
  | succ fuel =>
      obtain ⟨node', here', built⟩ := Option.bind_eq_some_iff.mp found
      cases here.symm.trans here'
      obtain ⟨t', found'⟩ := Option.isSome_iff_exists.mp (kind.strict built c member)
      exact ⟨t', fuel, found'⟩

/-- Fuel for several nodes. -/
theorem follow_all (names : List Nat) : (∀ c ∈ names, ∃ t, kind.HasTree nodes c t) →
    ∃ fuel, ∀ c ∈ names, ∀ t, kind.HasTree nodes c t → kind.follow nodes fuel c = some t := by
  induction names with
  | nil => intro _; exact ⟨0, fun c member => by cases member⟩
  | cons first rest ih =>
      intro all
      obtain ⟨t, fuel, found⟩ := all first List.mem_cons_self
      obtain ⟨fuel', others⟩ := ih fun c member => all c (List.mem_cons_of_mem _ member)
      refine ⟨max fuel fuel', ?_⟩
      intro c member t' tree
      rcases List.mem_cons.mp member with rfl | later
      · rw [tree.unique ⟨fuel, found⟩]
        exact follow_le (Nat.le_max_left _ _) found
      · exact follow_le (Nat.le_max_right _ _) (others c later t' tree)

/-- A node stands for a tree when the nodes do that it names. -/
theorem hasTree_of_children {n : Nat} {node : N} (here : nodes[n]? = some node)
    (all : ∀ c ∈ kind.children node, ∃ t, kind.HasTree nodes c t)
    (built : ∀ f : Nat → Option T,
      (∀ c ∈ kind.children node, ∀ t, kind.HasTree nodes c t → f c = some t) →
      (kind.build f n node).isSome = true) : ∃ t, kind.HasTree nodes n t := by
  obtain ⟨fuel, found⟩ := follow_all _ all
  obtain ⟨t, made⟩ := Option.isSome_iff_exists.mp (built (kind.follow nodes fuel) found)
  exact ⟨t, fuel + 1, Option.bind_eq_some_iff.mpr ⟨node, here, made⟩⟩

/-- Following the names from a node that stands for a tree comes to an end. -/
theorem HasTree.acc {n : Nat} {t : T} (tree : kind.HasTree nodes n t) : Acc (kind.Child nodes) n := by
  obtain ⟨fuel, found⟩ := tree
  induction fuel generalizing n t with
  | zero => cases found
  | succ fuel ih =>
      obtain ⟨node, here, built⟩ := Option.bind_eq_some_iff.mp found
      refine ⟨n, fun c child => ?_⟩
      obtain ⟨node', here', member⟩ := child
      cases here.symm.trans here'
      obtain ⟨t', found'⟩ := Option.isSome_iff_exists.mp (kind.strict built c member)
      exact ih found'

/-! ## Whole graphs -/

/-- A whole graph has no cycles. -/
theorem Whole.wellFounded (whole : kind.Whole nodes) : WellFounded (kind.Child nodes) := by
  refine ⟨fun n => ?_⟩
  by_cases inside : n < nodes.length
  · obtain ⟨t, tree⟩ := whole n inside
    exact tree.acc
  · refine ⟨n, fun c child => ?_⟩
    obtain ⟨node, here, _⟩ := child
    exact absurd (List.getElem?_eq_some_iff.mp here).1 inside

theorem Whole.child_bound (whole : kind.Whole nodes) {n c : Nat} (child : kind.Child nodes c n) :
    c < nodes.length := by
  obtain ⟨node, here, member⟩ := child
  obtain ⟨t, tree⟩ := whole n (List.getElem?_eq_some_iff.mp here).1
  obtain ⟨t', tree'⟩ := tree.child ⟨node, here, member⟩
  exact tree'.bound

/-- The trees of a graph are those of every longer one. -/
theorem HasTree.longer {n : Nat} {t : T} (tree : kind.HasTree nodes n t) (longer : nodes <+: nodes') :
    kind.HasTree nodes' n t := by
  obtain ⟨fuel, found⟩ := tree
  refine ⟨fuel, follow_agree (S := fun _ => True) ?_ fuel trivial found⟩
  intro n node _ here
  refine ⟨?_, fun _ _ => trivial⟩
  obtain ⟨added, rfl⟩ := longer
  rw [List.getElem?_append_left (List.getElem?_eq_some_iff.mp here).1]
  exact here

theorem Whole.append (whole : kind.Whole nodes) {node : N}
    (inside : ∀ c ∈ kind.children node, c < nodes.length)
    (built : ∀ f : Nat → Option T,
      (∀ c ∈ kind.children node, ∀ t, kind.HasTree nodes c t → f c = some t) →
      (kind.build f nodes.length node).isSome = true) : kind.Whole (nodes ++ [node]) := by
  have old (n : Nat) (less : n < nodes.length) : ∃ t, kind.HasTree (nodes ++ [node]) n t := by
    obtain ⟨t, tree⟩ := whole n less
    exact ⟨t, tree.longer (List.prefix_append _ _)⟩
  intro n less
  by_cases here : n < nodes.length
  · exact old n here
  · have last : n = nodes.length := by
      rw [List.length_append, List.length_singleton] at less
      omega
    subst last
    have here : (nodes ++ [node])[nodes.length]? = some node := List.getElem?_concat_length
    refine hasTree_of_children here (fun c member => old c (inside c member)) ?_
    intro f found
    refine built f fun c member t tree => ?_
    exact found c member t (tree.longer (List.prefix_append _ _))

theorem getElem_concat {n : Nat} {node other : N} (here : (nodes ++ [node])[n]? = some other) :
    nodes[n]? = some other ∨ other = node := by
  rw [List.getElem?_append] at here
  split at here
  · exact .inl here
  · exact .inr (List.mem_singleton.mp (List.mem_of_getElem? here))

theorem getElem_set {n l : Nat} {node other : N} (here : (nodes.set l node)[n]? = some other) :
    nodes[n]? = some other ∨ other = node := by
  rw [List.getElem?_set] at here
  split_ifs at here
  · exact .inr (Option.some.inj here).symm
  · exact .inl here

/-- A new node is named by none. -/
theorem Whole.unreferenced_new (whole : kind.Whole nodes) {node : N}
    (inside : ∀ c ∈ kind.children node, c < nodes.length) :
    kind.Unreferenced (nodes ++ [node]) nodes.length := by
  intro n other here member
  rcases getElem_concat here with old | rfl
  · exact absurd (whole.child_bound ⟨other, old, member⟩) (lt_irrefl _)
  · exact absurd (inside _ member) (lt_irrefl _)

theorem Unreferenced.append {k : Nat} (unreferenced : kind.Unreferenced nodes k) {node : N}
    (unnamed : k ∉ kind.children node) : kind.Unreferenced (nodes ++ [node]) k := by
  intro n other here
  rcases getElem_concat here with old | rfl
  · exact unreferenced n other old
  · exact unnamed

/-! ## A node that is replaced -/

theorem Unreferenced.set {k : Nat} (unreferenced : kind.Unreferenced nodes k) (l : Nat) {node : N}
    (unnamed : k ∉ kind.children node) : kind.Unreferenced (nodes.set l node) k := by
  intro n other here
  rcases getElem_set here with old | rfl
  · exact unreferenced n other old
  · exact unnamed

theorem HasTree.set {n l : Nat} {t : T} (tree : kind.HasTree nodes n t)
    (unreferenced : kind.Unreferenced nodes l) (other : n ≠ l) (node : N) :
    kind.HasTree (nodes.set l node) n t := by
  obtain ⟨fuel, found⟩ := tree
  refine ⟨fuel, follow_agree (S := fun n => n ≠ l) ?_ fuel other found⟩
  intro m old distinct here
  constructor
  · rw [List.getElem?_set_ne (Ne.symm distinct)]
    exact here
  · rintro c member rfl
    exact unreferenced m old here member

theorem Whole.set (whole : kind.Whole nodes) {l : Nat} (bound : l < nodes.length)
    (unreferenced : kind.Unreferenced nodes l) {node : N}
    (inside : ∀ c ∈ kind.children node, c < nodes.length ∧ c ≠ l)
    (built : ∀ f : Nat → Option T, (∀ c ∈ kind.children node, (f c).isSome = true) →
      (kind.build f l node).isSome = true) : kind.Whole (nodes.set l node) := by
  have old (n : Nat) (less : n < nodes.length) (other : n ≠ l) :
      ∃ t, kind.HasTree (nodes.set l node) n t := by
    obtain ⟨t, tree⟩ := whole n less
    exact ⟨t, tree.set unreferenced other node⟩
  intro n less
  rw [List.length_set] at less
  by_cases here : n = l
  · subst here
    have all (c : Nat) (member : c ∈ kind.children node) := old c (inside c member).1 (inside c member).2
    refine hasTree_of_children (List.getElem?_set_self bound) all ?_
    intro f found
    refine built f fun c member => ?_
    obtain ⟨t, tree⟩ := all c member
    rw [found c member t tree]
    rfl
  · exact old n less here

end Trees

end NodeKind
