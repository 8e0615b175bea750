import Mathlib

/-!
# Chains of cells

A heap of cells, each with a datum and a pointer to the next cell.  `Path` says which
cells lie between two pointers.  A path does not see what happens to the cells beside
it; two paths that meet are one path.  Following the pointers of a path gives its data,
and freeing on the way frees its cells and no others.
-/

set_option autoImplicit false

universe u

namespace Chain

structure Cell (α : Type u) where
  data : α
  next : Option Nat

abbrev Heap (α : Type u) := Nat → Option (Cell α)

section Paths
variable {α : Type u}

/-- The cells between two pointers, with their addresses. -/
def Path (heap : Heap α) : Option Nat → List (Nat × α) → Option Nat → Prop
  | start, [], stop => start = stop
  | start, (address, data) :: rest, stop =>
      start = some address ∧ ∃ next, heap address = some ⟨data, next⟩ ∧ Path heap next rest stop

def addresses (cells : List (Nat × α)) : List Nat := cells.map Prod.fst

@[simp] theorem addresses_nil : addresses ([] : List (Nat × α)) = [] := rfl

@[simp] theorem addresses_cons (cell : Nat × α) (rest : List (Nat × α)) :
    addresses (cell :: rest) = cell.1 :: addresses rest := rfl

@[simp] theorem addresses_append (front back : List (Nat × α)) :
    addresses (front ++ back) = addresses front ++ addresses back := List.map_append

variable {heap heap' : Heap α}

theorem path_append (front back : List (Nat × α)) : ∀ (start stop : Option Nat),
    Path heap start (front ++ back) stop ↔
      ∃ middle, Path heap start front middle ∧ Path heap middle back stop := by
  induction front with
  | nil =>
      intro start stop
      constructor
      · intro path
        exact ⟨start, rfl, path⟩
      · rintro ⟨middle, rfl, path⟩
        exact path
  | cons cell front ih =>
      intro start stop
      constructor
      · rintro ⟨here, next, read, path⟩
        obtain ⟨middle, before, behind⟩ := (ih next stop).mp path
        exact ⟨middle, ⟨here, next, read, before⟩, behind⟩
      · rintro ⟨middle, ⟨here, next, read, before⟩, behind⟩
        exact ⟨here, next, read, (ih next stop).mpr ⟨middle, before, behind⟩⟩

/-- A path depends on its own cells only. -/
theorem Path.frame {cells : List (Nat × α)} (same : ∀ a ∈ addresses cells, heap' a = heap a) :
    ∀ {start stop : Option Nat}, Path heap start cells stop → Path heap' start cells stop := by
  induction cells with
  | nil =>
      intro start stop path
      exact path
  | cons cell rest ih =>
      intro start stop path
      obtain ⟨here, next, read, path⟩ := path
      refine ⟨here, next, ?_, ?_⟩
      · rw [same cell.1 List.mem_cons_self]
        exact read
      · apply ih
        · intro a member
          exact same a (List.mem_cons_of_mem _ member)
        · exact path

theorem Path.live {cells : List (Nat × α)} : ∀ {start stop : Option Nat},
    Path heap start cells stop → ∀ a ∈ addresses cells, heap a ≠ none := by
  induction cells with
  | nil =>
      intro start stop _ a member
      cases member
  | cons cell rest ih =>
      intro start stop path a member
      obtain ⟨_, next, read, path⟩ := path
      rcases List.mem_cons.mp member with rfl | later
      · rw [read]
        exact Option.some_ne_none _
      · exact ih path a later

theorem Path.start_eq {cells : List (Nat × α)} {start : Option Nat}
    (path : Path heap start cells none) : start = cells.head?.map Prod.fst := by
  cases cells with
  | nil => exact path
  | cons cell rest => exact path.1

/-- The cell at a place of a path. -/
theorem Path.at {cells : List (Nat × α)} : ∀ {start : Option Nat} {i : Nat} {cell : Nat × α},
    Path heap start cells none → cells[i]? = some cell →
      heap cell.1 = some ⟨cell.2, (cells[i + 1]?).map Prod.fst⟩ := by
  induction cells with
  | nil =>
      intro start i cell _ here
      cases here
  | cons first rest ih =>
      intro start i cell path here
      obtain ⟨_, next, read, path⟩ := path
      cases i with
      | zero =>
          cases here
          rw [read, path.start_eq, List.getElem?_cons_succ, List.head?_eq_getElem?]
      | succ i => exact ih path here

section Follow

/-- The data from a pointer on, following at most `fuel` pointers. -/
def follow (heap : Heap α) : Nat → Option Nat → Option (List α)
  | _, none => some []
  | 0, some _ => none
  | fuel + 1, some address =>
      (heap address).bind fun cell => (follow heap fuel cell.next).map (cell.data :: ·)

/-- The same, where each cell is freed once its pointer has been read. -/
def release : Nat → Heap α → Option Nat → Option (List α × Heap α)
  | _, heap, none => some ([], heap)
  | 0, _, some _ => none
  | fuel + 1, heap, some address =>
      (heap address).bind fun cell =>
        (release fuel (Function.update heap address none) cell.next).map fun done =>
          (cell.data :: done.1, done.2)

theorem follow_path (cells : List (Nat × α)) : ∀ {fuel : Nat} {start : Option Nat},
    cells.length ≤ fuel → Path heap start cells none →
      follow heap fuel start = some (cells.map Prod.snd) := by
  induction cells with
  | nil =>
      intro fuel start _ path
      cases path
      cases fuel with
      | zero => rfl
      | succ fuel => rfl
  | cons cell rest ih =>
      intro fuel start enough path
      obtain ⟨rfl, next, read, path⟩ := path
      cases fuel with
      | zero => cases enough
      | succ fuel =>
          rw [follow, read, Option.bind_some, ih (Nat.le_of_succ_le_succ enough) path]
          rfl

theorem release_path (cells : List (Nat × α)) : ∀ {fuel : Nat} {heap : Heap α} {start : Option Nat},
    cells.length ≤ fuel → Path heap start cells none → (addresses cells).Nodup →
      ∃ left, release fuel heap start = some (cells.map Prod.snd, left) ∧
        (∀ a ∈ addresses cells, left a = none) ∧ ∀ a, a ∉ addresses cells → left a = heap a := by
  induction cells with
  | nil =>
      intro fuel heap start _ path _
      cases path
      refine ⟨heap, ?_, ?_, fun a _ => rfl⟩
      · cases fuel with
        | zero => rfl
        | succ fuel => rfl
      · intro a member
        cases member
  | cons cell rest ih =>
      intro fuel heap start enough path nodup
      obtain ⟨rfl, next, read, path⟩ := path
      obtain ⟨absent, nodup⟩ := List.nodup_cons.mp nodup
      cases fuel with
      | zero => cases enough
      | succ fuel =>
          have kept : Path (Function.update heap cell.1 none) next rest none := by
            apply path.frame
            intro a member
            have other : a ≠ cell.1 := by
              rintro rfl
              exact absent member
            exact Function.update_of_ne other _ _
          obtain ⟨left, released, gone, rest_left⟩ :=
            ih (Nat.le_of_succ_le_succ enough) kept nodup
          refine ⟨left, ?_, ?_, ?_⟩
          · rw [release, read, Option.bind_some, released]
            rfl
          · intro a member
            rcases List.mem_cons.mp member with rfl | later
            · rw [rest_left _ absent]
              exact Function.update_self _ _ _
            · exact gone a later
          · intro a outside
            obtain ⟨other, outside⟩ := not_or.mp fun here => outside (List.mem_cons.mpr here)
            rw [rest_left a outside]
            exact Function.update_of_ne other _ _

end Follow

end Paths

end Chain
