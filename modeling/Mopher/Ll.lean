import Mopher.Lib.Chain
import Mopher.Lib.CBuffer
import Mopher.Lib.PartialRun

/-!
# Linked lists

Model of `ll.c` on a heap of entries that all lists share.  An access to an entry that
is not allocated has no result.  `malloc` may fail, and may give the address of an entry
that was freed before; a position that `ll_next` keeps may point to such an entry.

The lists are compared with sequences of data, and the positions with places in them.
-/

set_option autoImplicit false

namespace Mopher

open Chain

/-- `ll_t`. -/
structure Ll where
  size : Nat
  head : Option Nat
  tail : Option Nat

def llInit : Ll := ⟨0, none, none⟩

/-- A `malloc` that is successful: as long as an address is free, it gives one that is. -/
structure Malloc (α : Type) where
  address : Heap α → Nat
  free : ∀ heap : Heap α, (∃ a, heap a = none) → heap (address heap) = none

section Operations
variable {α : Type}

/-- `ll_size` is a `uint32_t`. -/
def sizeSucc (size : Nat) : Nat := (size + 1) % 2 ^ 32

def llInsertHead (malloc : Option (Malloc α)) (heap : Heap α) (ll : Ll) (data : α) :
    Int × Heap α × Ll :=
  match malloc with
  | none => (-1, heap, ll)
  | some malloc =>
      let entry := malloc.address heap
      let heap := Function.update heap entry (some ⟨data, ll.head⟩)
      let tail := if ll.tail = none then some entry else ll.tail
      let size := sizeSucc ll.size
      (CBuffer.cInt size, heap, ⟨size, some entry, tail⟩)

/-- Makes a cell point to another one. -/
def setNext (heap : Heap α) (entry : Nat) (next : Option Nat) : Option (Heap α) :=
  (heap entry).map fun cell => Function.update heap entry (some ⟨cell.data, next⟩)

def llInsertTail (malloc : Option (Malloc α)) (heap : Heap α) (ll : Ll) (data : α) :
    Option (Int × Heap α × Ll) :=
  match malloc with
  | none => some (-1, heap, ll)
  | some malloc =>
      let entry := malloc.address heap
      let heap := Function.update heap entry (some ⟨data, none⟩)
      let linked := match ll.tail with
        | none => some heap
        | some last => setNext heap last (some entry)
      linked.map fun heap =>
        let head := if ll.head = none then some entry else ll.head
        let size := sizeSucc ll.size
        (CBuffer.cInt size, heap, ⟨size, head, some entry⟩)

def llRemoveHead (heap : Heap α) (ll : Ll) : Option (Option α × Heap α × Ll) :=
  if ll.size = 0 then some (none, heap, ll)
  else
    ll.head.bind fun entry =>
      (heap entry).map fun cell =>
        let tail := if cell.next = none then none else ll.tail
        (some cell.data, Function.update heap entry none, ⟨ll.size - 1, cell.next, tail⟩)

/-- The position and what is there; `NULL` at the end of the list. -/
def llNext (heap : Heap α) (position : Option Nat) : Option (Option α × Option Nat) :=
  match position with
  | none => some (none, none)
  | some entry => (heap entry).map fun cell => (some cell.data, cell.next)

/-- `ll_walk` with a callback that notes what it is called with. -/
def llWalk (fuel : Nat) (heap : Heap α) (ll : Ll) : Option (List α) := follow heap fuel ll.head

/-- `ll_clear` with a callback that notes what it is called with. -/
def llClear (fuel : Nat) (heap : Heap α) (ll : Ll) : Option (List α × Heap α × Ll) :=
  (release fuel heap ll.head).map fun done => (done.1, done.2, llInit)

end Operations

/-! ## Calls -/

/-- The heap with the lists and the positions that callers keep. -/
structure Lists (α : Type) where
  heap : Heap α
  lists : Nat → Ll
  positions : Nat → Option Nat

inductive LlCall (α : Type) where
  | insertHead (l : Nat) (data : α) (malloc : Option (Malloc α))
  | insertTail (l : Nat) (data : α) (malloc : Option (Malloc α))
  | removeHead (l : Nat)
  | clear (l : Nat)
  | walk (l : Nat)
  | start (c l : Nat)
  | next (c : Nat)

inductive LlAnswer (α : Type) where
  | count (n : Int)
  | data (found : Option α)
  | visited (all : List α)
  | nothing

section Calls
variable {α : Type} (fuel : Nat)

def listsInit : Lists α := ⟨fun _ => none, fun _ => llInit, fun _ => none⟩

def Lists.put (w : Lists α) (l : Nat) (heap : Heap α) (ll : Ll) : Lists α :=
  { w with heap := heap, lists := Function.update w.lists l ll }

def llCall (w : Lists α) : LlCall α → Option (LlAnswer α × Lists α)
  | .insertHead l data malloc =>
      let (n, heap, ll) := llInsertHead malloc w.heap (w.lists l) data
      some (.count n, w.put l heap ll)
  | .insertTail l data malloc =>
      (llInsertTail malloc w.heap (w.lists l) data).map fun (n, heap, ll) =>
        (.count n, w.put l heap ll)
  | .removeHead l =>
      (llRemoveHead w.heap (w.lists l)).map fun (found, heap, ll) => (.data found, w.put l heap ll)
  | .clear l =>
      (llClear fuel w.heap (w.lists l)).map fun (all, heap, ll) => (.visited all, w.put l heap ll)
  | .walk l => (llWalk fuel w.heap (w.lists l)).map fun all => (.visited all, w)
  | .start c l =>
      some (.nothing, { w with positions := Function.update w.positions c (w.lists l).head })
  | .next c =>
      (llNext w.heap (w.positions c)).map fun (found, position) =>
        (.data found, { w with positions := Function.update w.positions c position })

/-- A call after others; the answers are kept. -/
def llStep (s : List (LlAnswer α) × Lists α) (call : LlCall α) :
    Option (List (LlAnswer α) × Lists α) :=
  (llCall fuel s.2 call).map fun done => (s.1 ++ [done.1], done.2)

def llRun (calls : List (LlCall α)) : Option (List (LlAnswer α) × Lists α) :=
  PartialRun.run (llStep fuel) ([], listsInit) calls

end Calls

/-! ## Sequences -/

/-- Where a position is: behind the end, at a place of a sequence, or at something that
is no longer there. -/
inductive Place where
  | finished
  | at (l i : Nat)
  | dangling
deriving DecidableEq

/-- A new first element moves the others. -/
def Place.pushed (l : Nat) : Place → Place
  | .at m i => if m = l then .at m (i + 1) else .at m i
  | place => place

def Place.popped (l : Nat) : Place → Place
  | .at m i => if m = l then (if i = 0 then .dangling else .at m (i - 1)) else .at m i
  | place => place

def Place.cleared (l : Nat) : Place → Place
  | .at m i => if m = l then .dangling else .at m i
  | place => place

structure Seqs (α : Type) where
  items : Nat → List α
  places : Nat → Place

section Spec
variable {α : Type}

def seqsInit : Seqs α := ⟨fun _ => [], fun _ => .finished⟩

def Seqs.start (s : Seqs α) (l i : Nat) : Place := if i < (s.items l).length then .at l i else .finished

/-- A call on sequences.  There is no result for a position that dangles, and for a list
that becomes too long for the type of the answer. -/
def seqCall (s : Seqs α) : LlCall α → Option (LlAnswer α × Seqs α)
  | .insertHead _ _ none => some (.count (-1), s)
  | .insertHead l data (some _) =>
      if (s.items l).length + 1 < 2 ^ 31 then
        some (.count ((s.items l).length + 1),
          ⟨Function.update s.items l (data :: s.items l), fun c => (s.places c).pushed l⟩)
      else none
  | .insertTail _ _ none => some (.count (-1), s)
  | .insertTail l data (some _) =>
      if (s.items l).length + 1 < 2 ^ 31 then
        some (.count ((s.items l).length + 1),
          { s with items := Function.update s.items l (s.items l ++ [data]) })
      else none
  | .removeHead l =>
      match s.items l with
      | [] => some (.data none, s)
      | first :: rest =>
          some (.data (some first),
            ⟨Function.update s.items l rest, fun c => (s.places c).popped l⟩)
  | .clear l =>
      some (.visited (s.items l), ⟨Function.update s.items l [], fun c => (s.places c).cleared l⟩)
  | .walk l => some (.visited (s.items l), s)
  | .start c l => some (.nothing, { s with places := Function.update s.places c (s.start l 0) })
  | .next c =>
      match s.places c with
      | .finished => some (.data none, s)
      | .at l i =>
          some (.data (s.items l)[i]?,
            { s with places := Function.update s.places c (s.start l (i + 1)) })
      | .dangling => none

def seqStep (s : List (LlAnswer α) × Seqs α) (call : LlCall α) :
    Option (List (LlAnswer α) × Seqs α) :=
  (seqCall s.2 call).map fun done => (s.1 ++ [done.1], done.2)

def seqRun (calls : List (LlCall α)) : Option (List (LlAnswer α) × Seqs α) :=
  PartialRun.run seqStep ([], seqsInit) calls

end Spec

/-! ## The heap of a state -/

section Refine
variable {α : Type} {fuel : Nat}

/-- The cells of each list.  They are chained from `ll_head` to `ll_tail`, counted by
`ll_size`, no two lists share one, and no other cell is allocated. -/
structure Owns (w : Lists α) (cells : Nat → List (Nat × α)) : Prop where
  path : ∀ l, Path w.heap (w.lists l).head (cells l) none
  tail : ∀ l, (w.lists l).tail = (cells l).getLast?.map Prod.fst
  size : ∀ l, (w.lists l).size = (cells l).length
  nodup : ∀ l, (addresses (cells l)).Nodup
  disjoint : ∀ l m a, a ∈ addresses (cells l) → a ∈ addresses (cells m) → l = m
  owned : ∀ a, w.heap a ≠ none → ∃ l, a ∈ addresses (cells l)
  finite : {a | w.heap a ≠ none}.Finite

/-- The pointer that a place stands for; one that dangles may be anything. -/
def Points (cells : Nat → List (Nat × α)) (position : Option Nat) : Place → Prop
  | .finished => position = none
  | .at l i => ∃ cell, (cells l)[i]? = some cell ∧ position = some cell.1
  | .dangling => True

/-- The state stands for the sequences. -/
structure Represents (w : Lists α) (s : Seqs α) (cells : Nat → List (Nat × α)) : Prop
    extends Owns w cells where
  items : ∀ l, s.items l = (cells l).map Prod.snd
  short : ∀ l, (s.items l).length < 2 ^ 31
  points : ∀ c, Points cells (w.positions c) (s.places c)

/-- What a call does to one list: where the cells that it adds come from, what becomes
of those that it takes away, and that it leaves the others alone. -/
structure Change (heap heap' : Heap α) (ll : Ll) (old new : List (Nat × α)) : Prop where
  path : Path heap' ll.head new none
  tail : ll.tail = new.getLast?.map Prod.fst
  size : ll.size = new.length
  nodup : (addresses new).Nodup
  fresh : ∀ a ∈ addresses new, a ∈ addresses old ∨ heap a = none
  freed : ∀ a ∈ addresses old, a ∉ addresses new → heap' a = none
  frame : ∀ a, a ∉ addresses old → a ∉ addresses new → heap' a = heap a

variable {w : Lists α} {cells : Nat → List (Nat × α)} {l : Nat}

theorem Owns.live (owns : Owns w cells) {a m : Nat} (member : a ∈ addresses (cells m)) :
    w.heap a ≠ none :=
  (owns.path m).live a member

theorem Owns.put (owns : Owns w cells) {heap' : Heap α} {ll : Ll} {new : List (Nat × α)}
    (change : Change w.heap heap' ll (cells l) new) :
    Owns (w.put l heap' ll) (Function.update cells l new) := by
  have foreign {m a : Nat} (other : m ≠ l) (member : a ∈ addresses (cells m)) :
      a ∉ addresses (cells l) ∧ a ∉ addresses new := by
    have outside : a ∉ addresses (cells l) := fun inside =>
      other (owns.disjoint m l a member inside)
    refine ⟨outside, fun inside => ?_⟩
    rcases change.fresh a inside with old | free
    · exact outside old
    · exact owns.live member free
  refine ⟨?_, ?_, ?_, ?_, ?_, ?_, ?_⟩
  · intro m
    by_cases same : m = l
    · subst same
      simpa [Lists.put] using change.path
    · simp only [Lists.put, Function.update_of_ne same]
      apply (owns.path m).frame
      intro a member
      exact change.frame a (foreign same member).1 (foreign same member).2
  · intro m
    by_cases same : m = l
    · subst same
      simpa [Lists.put] using change.tail
    · simp only [Lists.put, Function.update_of_ne same]
      exact owns.tail m
  · intro m
    by_cases same : m = l
    · subst same
      simpa [Lists.put] using change.size
    · simp only [Lists.put, Function.update_of_ne same]
      exact owns.size m
  · intro m
    by_cases same : m = l
    · subst same
      simpa using change.nodup
    · simp only [Function.update_of_ne same]
      exact owns.nodup m
  · intro m n a left right
    by_cases atM : m = l
    · by_cases atN : n = l
      · rw [atM, atN]
      · subst atM
        rw [Function.update_self] at left
        rw [Function.update_of_ne atN] at right
        exact absurd left (foreign atN right).2
    · rw [Function.update_of_ne atM] at left
      by_cases atN : n = l
      · subst atN
        rw [Function.update_self] at right
        exact absurd right (foreign atM left).2
      · rw [Function.update_of_ne atN] at right
        exact owns.disjoint m n a left right
  · intro a live
    by_cases inNew : a ∈ addresses new
    · exact ⟨l, by rw [Function.update_self]; exact inNew⟩
    · have outside : a ∉ addresses (cells l) := fun old => live (change.freed a old inNew)
      have kept : w.heap a ≠ none := by
        rw [← change.frame a outside inNew]
        exact live
      obtain ⟨m, member⟩ := owns.owned a kept
      have other : m ≠ l := by
        rintro rfl
        exact outside member
      exact ⟨m, by rw [Function.update_of_ne other]; exact member⟩
  · apply (owns.finite.union (addresses new).finite_toSet).subset
    intro a live
    by_cases inNew : a ∈ addresses new
    · exact .inr inNew
    · left
      have outside : a ∉ addresses (cells l) := fun old => live (change.freed a old inNew)
      show w.heap a ≠ none
      rw [← change.frame a outside inNew]
      exact live

theorem Owns.malloc_free (owns : Owns w cells) (malloc : Malloc α) :
    w.heap (malloc.address w.heap) = none := by
  obtain ⟨a, free⟩ := owns.finite.exists_notMem
  exact malloc.free w.heap ⟨a, not_not.mp free⟩

/-! ## What each call does -/

theorem insertHead_change (owns : Owns w cells) (malloc : Malloc α) (data : α)
    (short : (cells l).length + 1 < 2 ^ 31) :
    ∃ (heap : Heap α) (ll : Ll), llInsertHead (some malloc) w.heap (w.lists l) data =
        (((cells l).length : Int) + 1, heap, ll) ∧
      Change w.heap heap ll (cells l) ((malloc.address w.heap, data) :: cells l) := by
  have free := owns.malloc_free malloc
  have outside : malloc.address w.heap ∉ addresses (cells l) := fun member =>
    owns.live member free
  have count : sizeSucc (w.lists l).size = (cells l).length + 1 := by
    rw [owns.size l]
    exact Nat.mod_eq_of_lt (by omega)
  refine ⟨Function.update w.heap (malloc.address w.heap) (some ⟨data, (w.lists l).head⟩),
    ⟨(cells l).length + 1, some (malloc.address w.heap),
      if (w.lists l).tail = none then some (malloc.address w.heap) else (w.lists l).tail⟩, ?_, ?_⟩
  · simp only [llInsertHead, count]
    rw [CBuffer.cInt_of_bounds (by omega) (by push_cast; omega)]
    push_cast
    rfl
  · refine ⟨⟨rfl, (w.lists l).head, Function.update_self _ _ _, ?_⟩, ?_, rfl, ?_, ?_, ?_, ?_⟩
    · apply (owns.path l).frame
      intro a member
      have other : a ≠ malloc.address w.heap := by
        rintro rfl
        exact outside member
      exact Function.update_of_ne other _ _
    · have tail := owns.tail l
      cases split : cells l with
      | nil =>
          rw [split] at tail
          simp [tail]
      | cons first rest =>
          rw [split, List.getLast?_cons] at tail
          simp [tail, List.getLast?_cons]
    · exact List.nodup_cons.mpr ⟨outside, owns.nodup l⟩
    · intro a member
      rcases List.mem_cons.mp member with rfl | old
      · exact .inr free
      · exact .inl old
    · intro a old gone
      exact absurd (List.mem_cons_of_mem _ old) gone
    · intro a _ other
      exact Function.update_of_ne (List.ne_of_not_mem_cons other) _ _

theorem insertTail_change (owns : Owns w cells) (malloc : Malloc α) (data : α)
    (short : (cells l).length + 1 < 2 ^ 31) :
    ∃ (heap : Heap α) (ll : Ll), llInsertTail (some malloc) w.heap (w.lists l) data =
        some (((cells l).length : Int) + 1, heap, ll) ∧
      Change w.heap heap ll (cells l) (cells l ++ [(malloc.address w.heap, data)]) := by
  have free := owns.malloc_free malloc
  have outside : malloc.address w.heap ∉ addresses (cells l) := fun member =>
    owns.live member free
  have count : sizeSucc (w.lists l).size = (cells l).length + 1 := by
    rw [owns.size l]
    exact Nat.mod_eq_of_lt (by omega)
  have answer : CBuffer.cInt ((cells l).length + 1 : Nat) = (cells l).length + 1 := by
    rw [CBuffer.cInt_of_bounds (by omega) (by push_cast; omega)]
    push_cast
    rfl
  have path := owns.path l
  have tail := owns.tail l
  have nodup := owns.nodup l
  have fresh : ∀ a ∈ addresses (cells l ++ [(malloc.address w.heap, data)]),
      a ∈ addresses (cells l) ∨ w.heap a = none := by
    intro a member
    rcases List.mem_append.mp (addresses_append _ _ ▸ member) with old | new
    · exact .inl old
    · rw [List.mem_singleton.mp new]
      exact .inr free
  have nodup' : (addresses (cells l ++ [(malloc.address w.heap, data)])).Nodup := by
    rw [addresses_append]
    apply nodup.append (List.nodup_singleton _)
    intro a old new
    rw [List.mem_singleton.mp new] at old
    exact outside old
  rcases List.eq_nil_or_concat (cells l) with empty | ⟨front, last, split⟩
  · rw [empty] at path tail
    have head : (w.lists l).head = none := path
    refine ⟨Function.update w.heap (malloc.address w.heap) (some ⟨data, none⟩),
      ⟨(cells l).length + 1, some (malloc.address w.heap), some (malloc.address w.heap)⟩, ?_, ?_⟩
    · simp only [llInsertTail, tail, head, count, answer]
      rfl
    · refine ⟨?_, ?_, by simp, nodup', fresh, ?_, ?_⟩
      · rw [empty]
        exact ⟨rfl, none, Function.update_self _ _ _, rfl⟩
      · simp
      · intro a old
        rw [empty] at old
        cases old
      · intro a _ other
        have different : a ≠ malloc.address w.heap := by
          rintro rfl
          apply other
          rw [addresses_append]
          exact List.mem_append_right _ List.mem_cons_self
        exact Function.update_of_ne different _ _
  · rw [List.concat_eq_append] at split
    rw [split] at path tail nodup
    obtain ⟨middle, before, rfl, next, read, rfl⟩ := (path_append front [last] _ none).mp path
    have lastOld : last.1 ∈ addresses (cells l) := by
      rw [split, addresses_append]
      exact List.mem_append_right _ List.mem_cons_self
    have different : last.1 ≠ malloc.address w.heap := by
      intro same
      rw [same] at lastOld
      exact outside lastOld
    have linked : setNext (Function.update w.heap (malloc.address w.heap) (some ⟨data, none⟩)) last.1
        (some (malloc.address w.heap)) =
          some (Function.update (Function.update w.heap (malloc.address w.heap) (some ⟨data, none⟩))
            last.1 (some ⟨last.2, some (malloc.address w.heap)⟩)) := by
      rw [setNext, Function.update_of_ne different, read]
      rfl
    have head : (w.lists l).head ≠ none := by
      rw [path.start_eq]
      cases front with
      | nil => exact Option.some_ne_none _
      | cons first rest => exact Option.some_ne_none _
    refine ⟨Function.update (Function.update w.heap (malloc.address w.heap) (some ⟨data, none⟩))
        last.1 (some ⟨last.2, some (malloc.address w.heap)⟩),
      ⟨(cells l).length + 1, (w.lists l).head, some (malloc.address w.heap)⟩, ?_, ?_⟩
    · simp only [llInsertTail, tail, List.getLast?_concat, Option.map_some, linked, count, answer,
        if_neg head]
    · refine ⟨?_, ?_, by simp, nodup', fresh, ?_, ?_⟩
      · rw [split, List.append_assoc]
        refine (path_append front _ _ none).mpr ⟨some last.1, ?_, ?_⟩
        · apply before.frame
          intro a member
          have old : a ∈ addresses (cells l) := by
            rw [split, addresses_append]
            exact List.mem_append_left _ member
          have notLast : a ≠ last.1 := by
            rw [addresses_append] at nodup
            exact List.disjoint_of_nodup_append nodup member |> fun apart same =>
              apart (List.mem_singleton.mpr same)
          have notNew : a ≠ malloc.address w.heap := by
            rintro rfl
            exact outside old
          rw [Function.update_of_ne notLast, Function.update_of_ne notNew]
        · refine ⟨rfl, _, Function.update_self _ _ _, rfl, none, ?_, rfl⟩
          rw [Function.update_of_ne (Ne.symm different), Function.update_self]
      · simp
      · intro a old gone
        rw [addresses_append] at gone
        exact absurd (List.mem_append_left _ old) gone
      · intro a notOld notNew
        have notLast : a ≠ last.1 := by
          rintro rfl
          exact notOld lastOld
        have other : a ≠ malloc.address w.heap := by
          rintro rfl
          apply notNew
          rw [addresses_append]
          exact List.mem_append_right _ List.mem_cons_self
        rw [Function.update_of_ne notLast, Function.update_of_ne other]

theorem removeHead_empty (owns : Owns w cells) (empty : cells l = []) :
    llRemoveHead w.heap (w.lists l) = some (none, w.heap, w.lists l) := by
  have size := owns.size l
  rw [empty] at size
  exact if_pos size

theorem removeHead_change (owns : Owns w cells) {first : Nat × α} {rest : List (Nat × α)}
    (split : cells l = first :: rest) :
    ∃ (heap : Heap α) (ll : Ll), llRemoveHead w.heap (w.lists l) = some (some first.2, heap, ll) ∧
      Change w.heap heap ll (cells l) rest := by
  have path := owns.path l
  have tail := owns.tail l
  have size := owns.size l
  have nodup := owns.nodup l
  rw [split] at path tail size nodup
  obtain ⟨head, next, read, path⟩ := path
  obtain ⟨outside, nodup⟩ := List.nodup_cons.mp nodup
  refine ⟨Function.update w.heap first.1 none,
    ⟨(w.lists l).size - 1, next, if next = none then none else (w.lists l).tail⟩, ?_, ?_⟩
  · rw [llRemoveHead, if_neg (by rw [size]; exact Nat.succ_ne_zero _), head, Option.bind_some, read]
    rfl
  · refine ⟨?_, ?_, ?_, nodup, ?_, ?_, ?_⟩
    · apply path.frame
      intro a member
      have other : a ≠ first.1 := by
        rintro rfl
        exact outside member
      exact Function.update_of_ne other _ _
    · have here := path.start_eq
      cases rest with
      | nil => exact if_pos here
      | cons second rest =>
          have more : next ≠ none := by
            rw [here]
            exact Option.some_ne_none _
          show (if next = none then none else (w.lists l).tail) = _
          rw [if_neg more, tail, List.getLast?_cons_cons]
    · show (w.lists l).size - 1 = rest.length
      rw [size]
      rfl
    · intro a member
      left
      rw [split]
      exact List.mem_cons_of_mem _ member
    · intro a old gone
      rw [split] at old
      rcases List.mem_cons.mp old with rfl | later
      · exact Function.update_self _ _ _
      · exact absurd later gone
    · intro a other _
      rw [split] at other
      exact Function.update_of_ne (List.ne_of_not_mem_cons other) _ _

theorem clear_change (owns : Owns w cells) (enough : (cells l).length ≤ fuel) :
    ∃ heap, llClear fuel w.heap (w.lists l) = some ((cells l).map Prod.snd, heap, llInit) ∧
      Change w.heap heap llInit (cells l) [] := by
  obtain ⟨heap, released, gone, kept⟩ := release_path (cells l) enough (owns.path l) (owns.nodup l)
  refine ⟨heap, ?_, ?_⟩
  · rw [llClear, released]
    rfl
  · refine ⟨rfl, rfl, rfl, List.nodup_nil, ?_, ?_, ?_⟩
    · intro a member
      cases member
    · intro a old _
      exact gone a old
    · intro a other _
      exact kept a other

/-! ## Positions -/

section Positions
variable {position : Option Nat} {place : Place}

theorem Points.pushed (points : Points cells position place) (cell : Nat × α) :
    Points (Function.update cells l (cell :: cells l)) position (place.pushed l) := by
  cases place with
  | finished => exact points
  | dangling => trivial
  | «at» m i =>
      obtain ⟨found, here, there⟩ := points
      by_cases same : m = l
      · subst same
        rw [Place.pushed, if_pos rfl]
        refine ⟨found, ?_, there⟩
        rw [Function.update_self, List.getElem?_cons_succ]
        exact here
      · rw [Place.pushed, if_neg same]
        refine ⟨found, ?_, there⟩
        rw [Function.update_of_ne same]
        exact here

theorem Points.appended (points : Points cells position place) (cell : Nat × α) :
    Points (Function.update cells l (cells l ++ [cell])) position place := by
  cases place with
  | finished => exact points
  | dangling => trivial
  | «at» m i =>
      obtain ⟨found, here, there⟩ := points
      refine ⟨found, ?_, there⟩
      by_cases same : m = l
      · subst same
        rw [Function.update_self, List.getElem?_append_left (List.getElem?_eq_some_iff.mp here).1]
        exact here
      · rw [Function.update_of_ne same]
        exact here

theorem Points.popped (points : Points cells position place) {first : Nat × α}
    {rest : List (Nat × α)} (split : cells l = first :: rest) :
    Points (Function.update cells l rest) position (place.popped l) := by
  cases place with
  | finished => exact points
  | dangling => trivial
  | «at» m i =>
      obtain ⟨found, here, there⟩ := points
      by_cases same : m = l
      · subst same
        rw [Place.popped, if_pos rfl]
        cases i with
        | zero => trivial
        | succ i =>
            rw [if_neg (Nat.succ_ne_zero i)]
            refine ⟨found, ?_, there⟩
            rw [split, List.getElem?_cons_succ] at here
            rw [Function.update_self]
            exact here
      · rw [Place.popped, if_neg same]
        refine ⟨found, ?_, there⟩
        rw [Function.update_of_ne same]
        exact here

theorem Points.cleared (points : Points cells position place) (new : List (Nat × α)) :
    Points (Function.update cells l new) position (place.cleared l) := by
  cases place with
  | finished => exact points
  | dangling => trivial
  | «at» m i =>
      obtain ⟨found, here, there⟩ := points
      by_cases same : m = l
      · rw [Place.cleared, if_pos same]
        trivial
      · rw [Place.cleared, if_neg same]
        refine ⟨found, ?_, there⟩
        rw [Function.update_of_ne same]
        exact here

end Positions

/-! ## Calls and runs -/

section Calls
variable {s s' : Seqs α} {answer : LlAnswer α}

theorem Represents.length (rep : Represents w s cells) (l : Nat) :
    (s.items l).length = (cells l).length := by
  rw [rep.items l, List.length_map]

theorem Represents.fits (rep : Represents w s cells) (enough : 2 ^ 31 ≤ fuel) (l : Nat) :
    (cells l).length ≤ fuel := by
  have short := rep.short l
  rw [rep.length] at short
  omega

/-- A call that changes one list. -/
theorem Represents.put (rep : Represents w s cells) {heap : Heap α} {ll : Ll}
    {new : List (Nat × α)} (change : Change w.heap heap ll (cells l) new) {items : List α}
    (same : items = new.map Prod.snd) (short : items.length < 2 ^ 31) {places : Nat → Place}
    (points : ∀ c, Points (Function.update cells l new) (w.positions c) (places c)) :
    Represents (w.put l heap ll) ⟨Function.update s.items l items, places⟩
      (Function.update cells l new) := by
  refine ⟨rep.toOwns.put change, ?_, ?_, points⟩
  · intro m
    by_cases here : m = l
    · subst here
      simpa using same
    · simp only [Function.update_of_ne here]
      exact rep.items m
  · intro m
    by_cases here : m = l
    · subst here
      simpa using short
    · simp only [Function.update_of_ne here]
      exact rep.short m

/-- The place behind `i` in a list, or the end, and the pointer that goes with it. -/
theorem Represents.points_start (rep : Represents w s cells) (l i : Nat) :
    Points cells ((cells l)[i]?.map Prod.fst) (s.start l i) := by
  rw [Seqs.start, rep.length]
  by_cases inside : i < (cells l).length
  · rw [if_pos inside, List.getElem?_eq_getElem inside]
    exact ⟨_, List.getElem?_eq_getElem inside, rfl⟩
  · rw [if_neg inside, List.getElem?_eq_none (Nat.le_of_not_lt inside)]
    rfl

/-- A position is moved. -/
theorem Represents.move (rep : Represents w s cells) {c : Nat} {position : Option Nat}
    {place : Place} (points : Points cells position place) :
    Represents { w with positions := Function.update w.positions c position }
      { s with places := Function.update s.places c place } cells := by
  refine ⟨⟨rep.path, rep.tail, rep.size, rep.nodup, rep.disjoint, rep.owned, rep.finite⟩,
    rep.items, rep.short, ?_⟩
  intro d
  by_cases same : d = c
  · subst same
    simpa using points
  · simp only [Function.update_of_ne same]
    exact rep.points d

theorem llCall_refines (enough : 2 ^ 31 ≤ fuel) (rep : Represents w s cells) (call : LlCall α)
    (called : seqCall s call = some (answer, s')) :
    ∃ w' cells', llCall fuel w call = some (answer, w') ∧ Represents w' s' cells' := by
  cases call with
  | insertHead l data malloc =>
      cases malloc with
      | none =>
          cases called
          refine ⟨w.put l w.heap (w.lists l), cells, rfl, ?_⟩
          simpa [Lists.put] using rep
      | some malloc =>
          simp only [seqCall, Option.ite_none_right_eq_some, Option.some.injEq, Prod.mk.injEq] at called
          obtain ⟨short, rfl, rfl⟩ := called
          obtain ⟨heap, ll, done, change⟩ :=
            insertHead_change rep.toOwns malloc data (by rw [← rep.length]; exact short)
          refine ⟨w.put l heap ll, _, ?_, rep.put change ?_ ?_ fun c => (rep.points c).pushed _⟩
          · simp only [llCall, done, rep.length]
          · rw [rep.items l]
            rfl
          · exact short
  | insertTail l data malloc =>
      cases malloc with
      | none =>
          cases called
          refine ⟨w.put l w.heap (w.lists l), cells, rfl, ?_⟩
          simpa [Lists.put] using rep
      | some malloc =>
          simp only [seqCall, Option.ite_none_right_eq_some, Option.some.injEq, Prod.mk.injEq] at called
          obtain ⟨short, rfl, rfl⟩ := called
          obtain ⟨heap, ll, done, change⟩ :=
            insertTail_change rep.toOwns malloc data (by rw [← rep.length]; exact short)
          refine ⟨w.put l heap ll, _, ?_, rep.put change ?_ ?_ fun c => (rep.points c).appended _⟩
          · simp only [llCall, done, rep.length, Option.map_some]
          · rw [rep.items l, List.map_append]
            rfl
          · rw [List.length_append]
            exact short
  | removeHead l =>
      cases split : cells l with
      | nil =>
          have empty : s.items l = [] := by rw [rep.items l, split]; rfl
          simp only [seqCall, empty, Option.some.injEq, Prod.mk.injEq] at called
          obtain ⟨rfl, rfl⟩ := called
          refine ⟨w.put l w.heap (w.lists l), cells, ?_, ?_⟩
          · simp only [llCall, removeHead_empty rep.toOwns split, Option.map_some]
          · simpa [Lists.put] using rep
      | cons first rest =>
          have items : s.items l = first.2 :: rest.map Prod.snd := by rw [rep.items l, split]; rfl
          simp only [seqCall, items, Option.some.injEq, Prod.mk.injEq] at called
          obtain ⟨rfl, rfl⟩ := called
          obtain ⟨heap, ll, done, change⟩ := removeHead_change rep.toOwns split
          refine ⟨w.put l heap ll, _, ?_, rep.put change rfl ?_ fun c => (rep.points c).popped split⟩
          · simp only [llCall, done, Option.map_some]
          · have short := rep.short l
            rw [items, List.length_cons] at short
            exact Nat.lt_of_succ_lt short
  | clear l =>
      cases called
      obtain ⟨heap, done, change⟩ := clear_change rep.toOwns (rep.fits enough l)
      refine ⟨w.put l heap llInit, _, ?_, rep.put change rfl (Nat.two_pow_pos 31) fun c =>
        (rep.points c).cleared _⟩
      simp only [llCall, done, rep.items l, Option.map_some]
  | walk l =>
      cases called
      refine ⟨w, cells, ?_, rep⟩
      rw [llCall, llWalk, follow_path (cells l) (rep.fits enough l) (rep.path l), rep.items l]
      rfl
  | start c l =>
      cases called
      refine ⟨_, cells, rfl, rep.move ?_⟩
      rw [(rep.path l).start_eq, List.head?_eq_getElem?]
      exact rep.points_start l 0
  | next c =>
      have points := rep.points c
      cases place : s.places c with
      | dangling =>
          rw [seqCall, place] at called
          cases called
      | finished =>
          rw [place] at points
          simp only [seqCall, place, Option.some.injEq, Prod.mk.injEq] at called
          obtain ⟨rfl, rfl⟩ := called
          have here : w.positions c = none := points
          refine ⟨{ w with positions := Function.update w.positions c none }, cells, ?_, ?_⟩
          · simp only [llCall, here, llNext, Option.map_some]
          · rw [← here, Function.update_eq_self]
            exact rep
      | «at» l i =>
          rw [place] at points
          obtain ⟨cell, found, here⟩ := points
          simp only [seqCall, place, Option.some.injEq, Prod.mk.injEq] at called
          obtain ⟨rfl, rfl⟩ := called
          refine ⟨_, cells, ?_, rep.move (rep.points_start l (i + 1))⟩
          simp only [llCall, here, llNext, (rep.path l).at found, Option.map_some, rep.items l,
            List.getElem?_map, found]

theorem listsInit_represents : Represents (listsInit : Lists α) seqsInit fun _ => [] := by
  refine ⟨⟨?_, ?_, ?_, ?_, ?_, ?_, ?_⟩, ?_, ?_, ?_⟩
  · intro l; rfl
  · intro l; rfl
  · intro l; rfl
  · intro l; exact List.nodup_nil
  · intro l m a member; cases member
  · intro a live; exact absurd rfl live
  · simp [listsInit]
  · intro l; rfl
  · intro l; exact Nat.two_pow_pos 31
  · intro c; rfl

theorem run_refines (enough : 2 ^ 31 ≤ fuel) (calls : List (LlCall α)) :
    ∀ {w : Lists α} {s : Seqs α} {cells : Nat → List (Nat × α)} {before after : List (LlAnswer α)}
      {s' : Seqs α}, Represents w s cells →
      PartialRun.run seqStep (before, s) calls = some (after, s') →
      ∃ w' cells', PartialRun.run (llStep fuel) (before, w) calls = some (after, w') ∧
        Represents w' s' cells' := by
  induction calls with
  | nil =>
      intro w s cells before after s' rep ran
      cases ran
      exact ⟨w, cells, rfl, rep⟩
  | cons call rest ih =>
      intro w s cells before after s' rep ran
      obtain ⟨⟨middle, t⟩, stepped, ran⟩ := Option.bind_eq_some_iff.mp ran
      obtain ⟨⟨answer, t'⟩, called, same⟩ := Option.map_eq_some_iff.mp stepped
      cases same
      obtain ⟨w', cells', done, rep'⟩ := llCall_refines enough rep call called
      have step : llStep fuel (before, w) call = some (before ++ [answer], w') := by
        rw [llStep, done]
        rfl
      rw [PartialRun.run_cons _ step]
      exact ih rep' ran

end Calls

open Classical in
/-- A `malloc` that gives the lowest free address, also when it was used before. -/
noncomputable def lowestFree : Malloc α where
  address heap := if free : ∃ a, heap a = none then Nat.find free else 0
  free heap free := by
    rw [dif_pos free]
    exact Nat.find_spec free

end Refine

end Mopher
