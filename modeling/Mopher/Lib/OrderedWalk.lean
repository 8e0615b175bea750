import Mathlib.Data.Set.Card
import Mathlib.Order.Bounds.Basic

/-!
# Walks through a map in the order of its keys

A cursor stands at a key, or in front of all of them, and goes on to the least key behind
it.  A walk is what such a cursor meets when nothing behind it changes.  What is removed at
the cursor does not disturb the walk, and a walk that removes the entries it meets removes
all of those that it is meant to remove.
-/

set_option autoImplicit false

namespace OrderedWalk

variable {K V : Type} [LinearOrder K]

/-- The key is behind the cursor. -/
def Behind (cursor : Option K) (key : K) : Prop := ∀ last ∈ cursor, last < key

/-- The entry that the cursor goes on to. -/
structure Next (map : K → Option V) (cursor : Option K) (key : K) (value : V) : Prop where
  stored : map key = some value
  behind : Behind cursor key
  least : ∀ other, map other ≠ none → Behind cursor other → key ≤ other

/-- The entries that a cursor meets, in order. -/
inductive Walk (map : K → Option V) : Option K → List (K × V) → Prop
  | ended {cursor : Option K} (nothing : ∀ key, Behind cursor key → map key = none) : Walk map cursor []
  | met {cursor : Option K} {key : K} {value : V} {rest : List (K × V)} (next : Next map cursor key value)
      (later : Walk map (some key) rest) : Walk map cursor ((key, value) :: rest)

theorem behind_none (key : K) : Behind none key := by
  intro last impossible
  cases impossible

theorem behind_some {last key : K} : Behind (some last) key ↔ last < key := by
  constructor
  · intro behind
    exact behind last rfl
  · intro less other same
    cases same
    exact less

theorem Behind.trans {cursor : Option K} {key later : K} (behind : Behind cursor key) (less : key < later) :
    Behind cursor later := fun last at_ => (behind last at_).trans less

section Walks
variable {map map' : K → Option V} {cursor : Option K}

theorem Next.unique {key key' : K} {value value' : V} (next : Next map cursor key value)
    (next' : Next map cursor key' value') : key = key' ∧ value = value' := by
  have stored : map key ≠ none := by rw [next.stored]; exact Option.some_ne_none value
  have stored' : map key' ≠ none := by rw [next'.stored]; exact Option.some_ne_none value'
  have same : key = key' :=
    le_antisymm (next.least key' stored' next'.behind) (next'.least key stored next.behind)
  subst same
  exact ⟨rfl, Option.some.inj (next.stored.symm.trans next'.stored)⟩

/-- A walk sees nothing of the map but what is behind its cursor. -/
theorem Walk.congr {entries : List (K × V)} (walk : Walk map cursor entries)
    (same : ∀ key, Behind cursor key → map' key = map key) : Walk map' cursor entries := by
  induction walk with
  | ended nothing => exact .ended fun key behind => (same key behind).trans (nothing key behind)
  | @met cursor key value rest next later ih =>
      refine .met ⟨(same key next.behind).trans next.stored, next.behind, ?_⟩ (ih ?_)
      · intro other stored behind
        rw [same other behind] at stored
        exact next.least other stored behind
      · intro other behind
        exact same other (next.behind.trans (behind_some.mp behind))

/-- The walk meets all entries behind the cursor, and no others. -/
theorem Walk.mem_iff {entries : List (K × V)} (walk : Walk map cursor entries) (key : K) (value : V) :
    (key, value) ∈ entries ↔ Behind cursor key ∧ map key = some value := by
  induction walk with
  | ended nothing =>
      refine iff_of_false List.not_mem_nil ?_
      rintro ⟨behind, stored⟩
      rw [nothing key behind] at stored
      cases stored
  | @met cursor first found rest next later ih =>
      rw [List.mem_cons, ih, Prod.mk.injEq, behind_some]
      constructor
      · rintro (⟨rfl, rfl⟩ | ⟨less, stored⟩)
        · exact ⟨next.behind, next.stored⟩
        · exact ⟨next.behind.trans less, stored⟩
      · rintro ⟨behind, stored⟩
        have known : map key ≠ none := by rw [stored]; exact Option.some_ne_none value
        rcases (next.least key known behind).eq_or_lt with same | less
        · subst same
          exact .inl ⟨rfl, Option.some.inj (stored.symm.trans next.stored)⟩
        · exact .inr ⟨less, stored⟩

theorem Walk.ascending {entries : List (K × V)} (walk : Walk map cursor entries) :
    (entries.map Prod.fst).Pairwise (· < ·) := by
  induction walk with
  | ended nothing => exact List.Pairwise.nil
  | met next later ih =>
      rw [List.map_cons, List.pairwise_cons]
      refine ⟨?_, ih⟩
      intro key inside
      obtain ⟨⟨key, value⟩, there, rfl⟩ := List.mem_map.mp inside
      exact behind_some.mp ((later.mem_iff key value).mp there).1

/-- A map with finitely many keys can be walked. -/
theorem exists_walk (finite : {key | map key ≠ none}.Finite) (cursor : Option K) :
    ∃ entries, Walk map cursor entries := by
  have left : {key | map key ≠ none ∧ Behind cursor key}.Finite := finite.subset fun _ both => both.1
  -- the keys behind the cursor get fewer
  induction size : {key | map key ≠ none ∧ Behind cursor key}.ncard using Nat.strongRecOn generalizing cursor with
  | ind size ih =>
      by_cases empty : ∀ key, Behind cursor key → map key = none
      · exact ⟨[], .ended empty⟩
      · push Not at empty
        obtain ⟨some', behind', stored'⟩ := empty
        obtain ⟨key, ⟨stored, behind⟩, least⟩ := left.exists_minimal ⟨some', stored', behind'⟩
        obtain ⟨value, found⟩ := Option.ne_none_iff_exists'.mp stored
        have next : Next map cursor key value := by
          refine ⟨found, behind, ?_⟩
          intro other stored behind
          exact (le_total key other).elim id fun below => least ⟨stored, behind⟩ below
        have fewer : {other | map other ≠ none ∧ Behind (some key) other} ⊂
            {other | map other ≠ none ∧ Behind cursor other} := by
          refine ⟨fun other inside => ⟨inside.1, behind.trans (behind_some.mp inside.2)⟩, ?_⟩
          intro back
          exact lt_irrefl key (behind_some.mp (back ⟨stored, behind⟩).2)
        obtain ⟨rest, later⟩ := ih _ (size ▸ Set.ncard_lt_ncard fewer left) (some key)
          (left.subset fewer.1) rfl
        exact ⟨(key, value) :: rest, .met next later⟩

end Walks

/-! ## Removing what is met -/

section Sweep
variable (gone : K → V → Bool)

/-- The map without the entries that are to be removed. -/
def sweep (map : K → Option V) : K → Option V := fun key => (map key).filter fun value => !gone key value

def removeMet (map : K → Option V) (entry : K × V) : K → Option V :=
  if gone entry.1 entry.2 then Function.update map entry.1 none else map

variable {gone} {map : K → Option V} {cursor : Option K}

/-- Removing at the cursor changes nothing behind it. -/
theorem removeMet_behind {key : K} {value : V} {other : K} (behind : Behind (some key) other) :
    removeMet gone map (key, value) other = map other := by
  unfold removeMet
  split
  · exact Function.update_of_ne (behind_some.mp behind).ne' _ _
  · rfl

/-- What a walk leaves of the map. -/
theorem Walk.foldl_removeMet {entries : List (K × V)} (walk : Walk map cursor entries) (key : K) :
    (Behind cursor key → entries.foldl (removeMet gone) map key = sweep gone map key) ∧
      (¬ Behind cursor key → entries.foldl (removeMet gone) map key = map key) := by
  induction entries generalizing map cursor with
  | nil =>
      cases walk with
      | ended nothing =>
          refine ⟨fun behind => ?_, fun _ => rfl⟩
          rw [List.foldl_nil, sweep, nothing key behind, Option.filter_none]
  | cons entry rest ih =>
      obtain ⟨first, value⟩ := entry
      cases walk with
      | met next later =>
      have later' : Walk (removeMet gone map (first, value)) (some first) rest :=
        later.congr fun other behind => removeMet_behind behind
      have rest' := ih later'
      rw [List.foldl_cons]
      by_cases past : Behind (some first) key
      · refine ⟨fun _ => ?_, fun before => absurd (next.behind.trans (behind_some.mp past)) before⟩
        rw [rest'.1 past, sweep, sweep, removeMet_behind past]
      · rw [rest'.2 past]
        rw [behind_some, not_lt] at past
        rcases past.eq_or_lt with here | before
        · subst here
          refine ⟨fun _ => ?_, fun before => absurd next.behind before⟩
          cases removed : gone key value with
          | false => simp [removeMet, sweep, Option.filter, next.stored, removed]
          | true => simp [removeMet, sweep, Option.filter, next.stored, removed]
        · have kept : removeMet gone map (first, value) key = map key := by
            unfold removeMet
            split
            · exact Function.update_of_ne before.ne _ _
            · rfl
          refine ⟨fun behind => ?_, fun _ => kept⟩
          have absent : map key = none := by
            by_contra stored
            exact absurd (next.least key stored behind) (not_le.mpr before)
          rw [kept, sweep, absent, Option.filter_none]

theorem Walk.swept {entries : List (K × V)} (walk : Walk map none entries) :
    entries.foldl (removeMet gone) map = sweep gone map := by
  funext key
  exact (walk.foldl_removeMet key).1 (behind_none key)

/-- A walk meets as many entries to remove as there are. -/
theorem Walk.countP_eq {entries : List (K × V)} (walk : Walk map none entries) :
    entries.countP (fun entry => gone entry.1 entry.2) =
      {key | ∃ value, map key = some value ∧ gone key value = true}.ncard := by
  have keys : {key | ∃ value, map key = some value ∧ gone key value = true} =
      (((entries.filter fun entry => gone entry.1 entry.2).map Prod.fst).toFinset : Set K) := by
    ext key
    simp only [Set.mem_ofPred_eq, List.coe_toFinset, List.mem_map, List.mem_filter, Prod.exists,
      exists_and_right, exists_eq_right, walk.mem_iff]
    constructor
    · rintro ⟨value, stored, removed⟩
      exact ⟨value, ⟨behind_none key, stored⟩, removed⟩
    · rintro ⟨value, ⟨_, stored⟩, removed⟩
      exact ⟨value, stored, removed⟩
  have distinct : ((entries.filter fun entry => gone entry.1 entry.2).map Prod.fst).Nodup :=
    (walk.ascending.sublist ((List.filter_sublist).map Prod.fst)).imp ne_of_lt
  rw [keys, Set.ncard_coe_finset, List.toFinset_card_of_nodup distinct, List.length_map,
    List.countP_eq_length_filter]

end Sweep

end OrderedWalk
