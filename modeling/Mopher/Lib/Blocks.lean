import Mathlib

/-!
# Blocks of memory

The heap of a C program as a list of blocks; the address of a block is its place in
the list.  A block that is freed stays behind as `none`, so an old pointer to it is
never valid again.  An access has no result where it would leave its block.

`junk` is what an allocated block has in it before anything is written.
-/

set_option autoImplicit false

namespace Blocks

abbrev Heap := List (Option (List UInt8))

def block (heap : Heap) (address : Nat) : Option (List UInt8) := heap[address]?.join

/-- The new block has the address `heap.length`. -/
def alloc (heap : Heap) (bytes : List UInt8) : Heap := heap ++ [some bytes]

def free (heap : Heap) (address : Nat) : Heap := heap.set address none

/-- `size` bytes of a new block that starts with those of an old one. -/
def resized (junk : Nat → UInt8) (old : List UInt8) (size : Nat) : List UInt8 :=
  (old ++ (List.range size).map junk).take size

/-- `realloc`, which always moves the block. -/
def realloc (junk : Nat → UInt8) (heap : Heap) (pointer : Option Nat) (size : Nat) :
    Option (Nat × Heap) :=
  match pointer with
  | none => some (heap.length, alloc heap (resized junk [] size))
  | some address =>
      (block heap address).map fun old =>
        (heap.length, alloc (free heap address) (resized junk old size))

def write (heap : Heap) (address offset : Nat) (bytes : List UInt8) : Option Heap :=
  (block heap address).bind fun old =>
    if offset + bytes.length ≤ old.length then
      some (heap.set address (some (old.take offset ++ bytes ++ old.drop (offset + bytes.length))))
    else none

def read (heap : Heap) (address offset size : Nat) : Option (List UInt8) :=
  (block heap address).bind fun bytes =>
    if offset + size ≤ bytes.length then some ((bytes.drop offset).take size) else none

/-- The string that starts at the offset. -/
def text (heap : Heap) (address offset : Nat) : Option (List UInt8) :=
  (block heap address).bind fun bytes =>
    if 0 ∈ bytes.drop offset then some ((bytes.drop offset).takeWhile (· ≠ 0)) else none

/-- `strcpy` from the start of a block. -/
def strcpy (heap : Heap) (address offset : Nat) (source : Option Nat) : Option Heap :=
  source.bind fun source =>
    (text heap source 0).bind fun string => write heap address offset (string ++ [0])

/-- `strcat` of a literal. -/
def strcat (heap : Heap) (address offset : Nat) (suffix : List UInt8) : Option Heap :=
  (text heap address offset).bind fun string =>
    write heap address (offset + string.length) (suffix ++ [0])

/-- `memcpy` from the start of a block.  No bytes are copied from anywhere, the null
pointer included. -/
def memcpy (heap : Heap) (address offset : Nat) (source : Option Nat) (size : Nat) : Option Heap :=
  if size = 0 then some heap
  else
    source.bind fun source =>
      (read heap source 0 size).bind fun bytes => write heap address offset bytes

section Blocks
variable {heap : Heap} {address other : Nat} {bytes : List UInt8}

theorem lt_length (live : block heap address = some bytes) : address < heap.length := by
  by_contra outside
  rw [block, List.getElem?_eq_none (Nat.le_of_not_lt outside)] at live
  cases live

@[simp] theorem block_alloc : block (alloc heap bytes) heap.length = some bytes := by
  simp [block, alloc]

theorem block_alloc_of_lt (inside : address < heap.length) (bytes : List UInt8) :
    block (alloc heap bytes) address = block heap address := by
  simp [block, alloc, List.getElem?_append_left inside]

@[simp] theorem alloc_set (heap : Heap) (bytes content : List UInt8) :
    (alloc heap bytes).set heap.length (some content) = alloc heap content := by
  simp [alloc]

theorem block_set (inside : address < heap.length) (content : Option (List UInt8)) :
    block (heap.set address content) address = content := by
  simp [block, inside]

theorem block_set_of_ne (different : address ≠ other) (content : Option (List UInt8)) :
    block (heap.set address content) other = block heap other := by
  simp only [block, List.getElem?_set_ne different]

@[simp] theorem resized_length (junk : Nat → UInt8) (old : List UInt8) (size : Nat) :
    (resized junk old size).length = size := by
  simp [resized]

/-- A block that grows keeps what it has. -/
theorem resized_append (junk : Nat → UInt8) (old : List UInt8) (more : Nat) :
    ∃ rest, rest.length = more ∧ resized junk old (old.length + more) = old ++ rest := by
  refine ⟨((List.range (old.length + more)).map junk).take more, by simp, ?_⟩
  rw [resized, List.take_append, List.take_of_length_le (Nat.le_add_right _ _)]
  simp

/-- Bytes are written over as many others, and nothing around them changes. -/
theorem write_append (front back bytes : List UInt8) {old : List UInt8}
    (live : block heap address = some (front ++ old ++ back)) (length : bytes.length = old.length) :
    write heap address front.length bytes =
      some (heap.set address (some (front ++ bytes ++ back))) := by
  have room : front.length + bytes.length ≤ (front ++ old ++ back).length := by
    simp [length]
  have before : (front ++ old ++ back).take front.length = front := by
    rw [List.append_assoc, List.take_left]
  have behind : (front ++ old ++ back).drop (front.length + bytes.length) = back := by
    rw [length, ← List.length_append, List.drop_left]
  rw [write, live, Option.bind_some, if_pos room, before, behind]

theorem read_append (front back : List UInt8) (live : block heap address = some (front ++ bytes ++ back)) :
    read heap address front.length bytes.length = some bytes := by
  have room : front.length + bytes.length ≤ (front ++ bytes ++ back).length := by simp
  rw [read, live, Option.bind_some, if_pos room, List.append_assoc, List.drop_left, List.take_left]

theorem text_append (front back : List UInt8) {string : List UInt8} (free : (0 : UInt8) ∉ string)
    (live : block heap address = some (front ++ string ++ 0 :: back)) :
    text heap address front.length = some string := by
  have rest : (front ++ string ++ 0 :: back).drop front.length = string ++ 0 :: back := by
    rw [List.append_assoc, List.drop_left]
  have stop : (string ++ 0 :: back).takeWhile (· ≠ 0) = string := by
    rw [List.takeWhile_append_of_pos]
    · simp
    · intro c member
      refine decide_eq_true ?_
      rintro rfl
      exact free member
  rw [text, live, Option.bind_some, rest, if_pos (by simp), stop]

/-- `strcpy` of a string over as many bytes and one more. -/
theorem strcpy_append (front back : List UInt8) {old string rest : List UInt8} {source : Nat}
    (live : block heap address = some (front ++ old ++ back))
    (held : block heap source = some (string ++ 0 :: rest)) (free : (0 : UInt8) ∉ string)
    (length : old.length = string.length + 1) : strcpy heap address front.length (some source) =
      some (heap.set address (some (front ++ (string ++ [0]) ++ back))) := by
  have found : text heap source 0 = some string := text_append [] rest free held
  have written := write_append front back (string ++ [0]) live (by simp [length])
  rw [strcpy, Option.bind_some, found, Option.bind_some, written]

/-- `strcat` behind a string that has room for it. -/
theorem strcat_append (front back suffix : List UInt8) {string old : List UInt8}
    (live : block heap address = some (front ++ string ++ 0 :: (old ++ back)))
    (free : (0 : UInt8) ∉ string) (length : suffix.length = old.length) :
    strcat heap address front.length suffix =
      some (heap.set address (some (front ++ string ++ (suffix ++ [0]) ++ back))) := by
  have found := text_append front (old ++ back) free live
  have live' : block heap address = some (front ++ string ++ (0 :: old) ++ back) := by
    rw [live]
    simp
  have written := write_append (front ++ string) back (suffix ++ [0]) live' (by simp [length])
  rw [List.length_append] at written
  rw [strcat, found, Option.bind_some, written]

/-- `memcpy` of a block; the pointer may be anything when there is nothing to copy. -/
theorem memcpy_append (front back : List UInt8) {old rest : List UInt8} {source : Option Nat}
    (live : block heap address = some (front ++ old ++ back)) (length : bytes.length = old.length)
    (held : bytes ≠ [] → ∃ pointer, source = some pointer ∧ block heap pointer = some (bytes ++ rest)) :
    memcpy heap address front.length source bytes.length =
      some (heap.set address (some (front ++ bytes ++ back))) := by
  have written := write_append front back bytes live length
  cases bytes with
  | nil =>
      have nothing : heap.set address (some (front ++ [] ++ back)) = heap := by
        have inside := lt_length live
        rw [eq_comm, List.length_nil, List.length_eq_zero_iff] at length
        rw [length] at live
        apply List.ext_getElem?
        intro i
        by_cases here : address = i
        · subst here
          simp only [block, List.getElem?_eq_getElem inside, Option.join_some] at live
          simp [inside, live]
        · rw [List.getElem?_set_ne here]
      rw [nothing]
      rfl
  | cons first others =>
      obtain ⟨pointer, rfl, live'⟩ := held (List.cons_ne_nil _ _)
      have got := read_append [] rest live'
      rw [memcpy, if_neg (by simp), Option.bind_some]
      rw [List.length_nil] at got
      rw [got, Option.bind_some, written]

end Blocks

end Blocks
