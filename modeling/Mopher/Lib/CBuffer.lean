import Mathlib

/-!
# Buffers that C functions fill

What a function writes through a pointer is kept as a partial map: `none` is a place
that nothing was written to, so a write past the buffer shows even if it changes
nothing.  Places are counted from the start of the buffer.  Lengths are `int`s.
-/

set_option autoImplicit false

namespace CBuffer

/-- A number that is kept in an `int`. -/
def cInt (n : Int) : Int := (BitVec.ofInt 32 n).toInt

theorem cInt_of_bounds {n : Int} (low : -2 ^ 31 ≤ n) (high : n < 2 ^ 31) : cInt n = n := by
  unfold cInt
  rw [BitVec.toInt_ofInt, Int.bmod_eq_of_le]
  · omega
  · omega

theorem cInt_bounds (n : Int) : -2 ^ 31 ≤ cInt n ∧ cInt n < 2 ^ 31 := by
  have low := Int.le_bmod (x := n) (m := 2 ^ 32) (by decide)
  have high := Int.bmod_lt (x := n) (m := 2 ^ 32) (by decide)
  unfold cInt
  rw [BitVec.toInt_ofInt]
  constructor
  · omega
  · omega

/-- A length is never less than what an `int` keeps of it. -/
theorem cInt_le {n : Int} (natural : 0 ≤ n) : cInt n ≤ n := by
  by_cases small : n < 2 ^ 31
  · rw [cInt_of_bounds (by omega) small]
  · have high := (cInt_bounds n).2
    omega

theorem cInt_emod (n : Int) : cInt n % 2 ^ 32 = n % 2 ^ 32 := by
  unfold cInt
  rw [BitVec.toInt_ofInt]
  exact Int.bmod_emod

/-- An `unsigned int` is 0 if it is 0 as an `int`. -/
theorem cInt_eq_zero_iff {n : Nat} (small : n < 2 ^ 32) : cInt n = 0 ↔ n = 0 := by
  have same := cInt_emod n
  have bounds := cInt_bounds n
  omega

/-- The size of a buffer as a function gets it. -/
structure Size where
  bytes : Int
  positive : 0 < bytes
  small : bytes < 2 ^ 31

abbrev Writes := Int → Option UInt8

def untouched : Writes := fun _ => none

def put (writes : Writes) (place : Int) (byte : UInt8) : Writes :=
  Function.update writes place (some byte)

/-- Bytes written one after the other. -/
def puts (writes : Writes) (place : Int) : List UInt8 → Writes
  | [] => writes
  | byte :: rest => puts (put writes place byte) (place + 1) rest

/-- What `strncpy` writes: the text is cut or filled up with NULs. -/
def strncpy (text : List UInt8) (count : Nat) : List UInt8 :=
  (text ++ List.replicate count 0).take count

/-- Where a byte is first found in a text. -/
def strchr (c : UInt8) : List UInt8 → Option Nat
  | [] => none
  | byte :: rest => if byte = c then some 0 else (strchr c rest).map (· + 1)

/-- Where a byte is last found in a text. -/
def strrchr (c : UInt8) : List UInt8 → Option Nat
  | [] => none
  | byte :: rest =>
      match strrchr c rest with
      | some place => some (place + 1)
      | none => if byte = c then some 0 else none

/-- Nothing is written outside of the buffer. -/
def Within (writes : Writes) (size : Int) : Prop := ∀ i, writes i ≠ none → 0 ≤ i ∧ i < size

def Shows (writes : Writes) (place : Int) (bytes : List UInt8) : Prop :=
  ∀ k (inside : k < bytes.length), writes (place + k) = some bytes[k]

/-- The buffer holds a text that a NUL ends. -/
def HoldsText (writes : Writes) (text : List UInt8) : Prop := Shows writes 0 (text ++ [0])

/-- What is read from the first places of a buffer; where nothing was written there is
junk. -/
def contents (junk : Nat → UInt8) (writes : Writes) (count : Nat) : List UInt8 :=
  (List.range count).map fun i : Nat => (writes i).getD (junk i)

/-- What a call writes to a buffer that starts at a place of another one. -/
def overlay (writes : Writes) (place : Int) (part : Writes) : Writes :=
  fun i => (part (i - place)).or (writes i)

/-- Nothing that was written is unwritten. -/
def Grows (writes writes' : Writes) : Prop := ∀ i, writes i ≠ none → writes' i ≠ none

/-- A byte is written behind the others if there is still room. -/
def store (size : Int) (dest : Int × Writes) (byte : UInt8) : Int × Writes :=
  if dest.1 < size then (dest.1 + 1, put dest.2 dest.1 byte) else dest

section Writes
variable {writes : Writes} {place size : Int} {byte : UInt8} {bytes more : List UInt8}

@[simp] theorem put_same : put writes place byte place = some byte := Function.update_self ..

theorem put_other {i : Int} (other : i ≠ place) : put writes place byte i = writes i :=
  Function.update_of_ne other ..

@[simp] theorem puts_nil : puts writes place [] = writes := rfl

theorem puts_cons : puts writes place (byte :: bytes) = puts (put writes place byte) (place + 1) bytes :=
  rfl

theorem puts_append : puts writes place (bytes ++ more) =
    puts (puts writes place bytes) (place + bytes.length) more := by
  induction bytes generalizing writes place with
  | nil => simp
  | cons byte bytes ih =>
      have next : place + 1 + (bytes.length : Int) = place + (bytes.length + 1 : Nat) := by
        push_cast
        omega
      rw [List.cons_append, puts_cons, puts_cons, ih, List.length_cons, next]

theorem puts_outside {i : Int} (outside : i < place ∨ place + bytes.length ≤ i) :
    puts writes place bytes i = writes i := by
  induction bytes generalizing writes place with
  | nil => rfl
  | cons byte bytes ih =>
      rw [List.length_cons] at outside
      push_cast at outside
      rw [puts_cons, ih (by omega), put_other (by omega)]

theorem puts_inside {k : Nat} (inside : k < bytes.length) :
    puts writes place bytes (place + k) = some bytes[k] := by
  induction bytes generalizing writes place k with
  | nil => simp at inside
  | cons byte bytes ih =>
      rw [puts_cons]
      cases k with
      | zero =>
          rw [puts_outside (by omega)]
          simp
      | succ k =>
          have next : place + ((k + 1 : Nat) : Int) = place + 1 + k := by
            push_cast
            omega
          rw [next, ih (by simpa using inside)]
          rfl

/-- A byte that was written is written again. -/
theorem put_puts {k : Nat} (inside : k < bytes.length) :
    put (puts writes place bytes) (place + k) byte = puts writes place (bytes.set k byte) := by
  funext i
  by_cases outside : i < place ∨ place + bytes.length ≤ i
  · rw [put_other (by omega), puts_outside outside, puts_outside (by rwa [List.length_set])]
  · obtain ⟨m, rfl⟩ : ∃ m : Nat, i = place + m := ⟨(i - place).toNat, by omega⟩
    have within : m < bytes.length := by omega
    rw [puts_inside (by rwa [List.length_set]), List.getElem_set]
    by_cases same : k = m
    · rw [if_pos same, same, put_same]
    · rw [if_neg same, put_other (by omega), puts_inside within]

theorem shows_puts : Shows (puts writes place bytes) place bytes := fun _ inside => puts_inside inside

theorem holdsText_puts : HoldsText (puts writes 0 (bytes ++ [0])) bytes := shows_puts

/-- What is written elsewhere does not change what is shown. -/
theorem Shows.puts {start : Int} (shows' : Shows writes start more)
    (apart : start + more.length ≤ place ∨ place + bytes.length ≤ start) :
    Shows (puts writes place bytes) start more := by
  intro k inside
  rw [puts_outside (by omega)]
  exact shows' k inside

theorem shows_append : Shows writes place (bytes ++ more) ↔
    Shows writes place bytes ∧ Shows writes (place + bytes.length) more := by
  constructor
  · intro shows'
    constructor
    · intro k inside
      rw [shows' k (by simp; omega), List.getElem_append_left inside]
    · intro k inside
      have next : place + (bytes.length : Int) + k = place + (bytes.length + k : Nat) := by
        push_cast
        omega
      rw [next, shows' (bytes.length + k) (by simpa using inside),
        List.getElem_append_right (by omega)]
      simp
  · rintro ⟨front, back⟩ k inside
    by_cases first : k < bytes.length
    · rw [List.getElem_append_left first]
      exact front k first
    · have rest : k - bytes.length < more.length := by
        rw [List.length_append] at inside
        omega
      have next : place + (k : Int) = place + (bytes.length : Int) + (k - bytes.length : Nat) := by
        omega
      rw [next, back _ rest, List.getElem_append_right (by omega)]

theorem within_untouched : Within untouched size := fun _ written => (written rfl).elim

theorem Within.put (within : Within writes size) (low : 0 ≤ place) (high : place < size) :
    Within (put writes place byte) size := by
  intro i written
  by_cases here : i = place
  · omega
  · rw [put_other here] at written
    exact within i written

theorem Within.puts (within : Within writes size) (low : 0 ≤ place)
    (high : place + bytes.length ≤ size) : Within (puts writes place bytes) size := by
  intro i written
  by_cases outside : i < place ∨ place + bytes.length ≤ i
  · rw [puts_outside outside] at written
    exact within i written
  · omega

/-- A byte written at a place counts against the buffer. -/
theorem Within.of_put (within : Within (CBuffer.put writes place byte) size) :
    0 ≤ place ∧ place < size := by
  refine within place ?_
  rw [put_same]
  simp

/-- Bytes that were written fit. -/
theorem Within.of_puts (within : Within (CBuffer.puts writes place bytes) size)
    (some' : bytes ≠ []) : 0 ≤ place ∧ place + bytes.length ≤ size := by
  have positive := List.length_pos_iff.mpr some'
  have first := within (place + (0 : Nat)) (by rw [puts_inside positive]; simp)
  have last := within (place + (bytes.length - 1 : Nat)) (by rw [puts_inside (by omega)]; simp)
  omega

theorem Grows.refl : Grows writes writes := fun _ written => written

theorem Grows.trans {writes' writes'' : Writes} (first : Grows writes writes')
    (second : Grows writes' writes'') : Grows writes writes'' :=
  fun i written => second i (first i written)

theorem grows_put : Grows writes (CBuffer.put writes place byte) := by
  intro i written
  by_cases here : i = place
  · rw [here, put_same]
    simp
  · rwa [put_other here]

theorem grows_puts : Grows writes (CBuffer.puts writes place bytes) := by
  induction bytes generalizing writes place with
  | nil => exact Grows.refl
  | cons byte bytes ih => exact grows_put.trans ih

theorem grows_overlay {part : Writes} : Grows writes (overlay writes place part) := by
  intro i written
  unfold overlay
  cases part (i - place) with
  | none => exact written
  | some byte => simp

/-- A write past the buffer stays one. -/
theorem Grows.within {writes' : Writes} (grows : Grows writes writes') (within : Within writes' size) :
    Within writes size := fun i written => within i (grows i written)

@[simp] theorem overlay_untouched : overlay writes place untouched = writes := rfl

theorem overlay_puts : overlay writes place (CBuffer.puts untouched 0 bytes) =
    CBuffer.puts writes place bytes := by
  funext i
  unfold overlay
  by_cases outside : i < place ∨ place + bytes.length ≤ i
  · rw [puts_outside outside, puts_outside (by omega)]
    rfl
  · obtain ⟨m, rfl⟩ : ∃ m : Nat, i = place + m := ⟨(i - place).toNat, by omega⟩
    have inside : m < bytes.length := by omega
    have back : place + (m : Int) - place = 0 + m := by omega
    rw [back, puts_inside inside, puts_inside inside]
    rfl

/-- What is written over the end of a text replaces it. -/
theorem puts_over {tail : List UInt8} (covered : tail.length ≤ more.length) :
    CBuffer.puts (CBuffer.puts writes place (bytes ++ tail)) (place + bytes.length) more =
      CBuffer.puts writes place (bytes ++ more) := by
  funext i
  by_cases before : i < place + bytes.length
  · rw [puts_outside (.inl before), puts_append, puts_append, puts_outside (.inl before),
      puts_outside (.inl before)]
  · by_cases behind : place + bytes.length + more.length ≤ i
    · rw [puts_outside (.inr behind), puts_outside (by rw [List.length_append]; omega),
        puts_outside (by rw [List.length_append]; omega)]
    · obtain ⟨m, rfl⟩ : ∃ m : Nat, i = place + bytes.length + m :=
        ⟨(i - (place + bytes.length)).toNat, by omega⟩
      rw [@puts_append writes place bytes more, puts_inside (by omega), puts_inside (by omega)]

/-- A text that a buffer holds is shorter than the buffer. -/
theorem HoldsText.length_lt (holds : HoldsText writes bytes) (within : Within writes size) :
    (bytes.length : Int) < size := by
  have last := holds bytes.length (by simp)
  have place := within (0 + (bytes.length : Int)) (by rw [last]; simp)
  omega

theorem Shows.contents {junk : Nat → UInt8} (shows' : Shows writes 0 bytes) :
    contents junk writes bytes.length = bytes := by
  refine List.ext_getElem (by simp [CBuffer.contents]) fun k inside inside' => ?_
  have here := shows' k inside'
  rw [Int.zero_add] at here
  simp [CBuffer.contents, here]

/-- Bytes are stored as long as there is room. -/
theorem foldl_store (low : place ≤ size) :
    bytes.foldl (store size) (place, writes) =
      (place + (bytes.take (size - place).toNat).length,
        puts writes place (bytes.take (size - place).toNat)) := by
  induction bytes generalizing writes place with
  | nil => simp
  | cons byte bytes ih =>
      rw [List.foldl_cons, store]
      by_cases room : place < size
      · obtain ⟨n, left⟩ : ∃ n, (size - place).toNat = n + 1 := ⟨(size - place).toNat - 1, by omega⟩
        have next : (size - (place + 1)).toNat = n := by omega
        simp only [room, if_true]
        rw [ih (by omega), next, left, List.take_succ_cons, List.length_cons, puts_cons]
        congr 1
        push_cast
        omega
      · have none' : (size - place).toNat = 0 := by omega
        have full : (size - place).toNat = 0 := none'
        simp only [room, if_false]
        rw [ih low, none', List.take_zero, List.take_zero]

theorem length_strncpy (text : List UInt8) (count : Nat) : (strncpy text count).length = count := by
  unfold strncpy
  rw [List.length_take, List.length_append, List.length_replicate]
  omega

/-- No more than the text is copied. -/
theorem strncpy_of_le {text : List UInt8} {count : Nat} (short : count ≤ text.length) :
    strncpy text count = text.take count := List.take_append_of_le_length short

/-- The text is copied with the NUL that ends it. -/
theorem strncpy_succ (text : List UInt8) : strncpy text (text.length + 1) = text ++ [0] := by
  unfold strncpy
  rw [List.take_append, List.take_of_length_le (by omega), Nat.add_sub_cancel_left,
    List.take_replicate]
  simp

end Writes

section Search
variable {c : UInt8} {text : List UInt8}

theorem strchr_eq_none : strchr c text = none ↔ c ∉ text := by
  induction text with
  | nil => simp [strchr]
  | cons byte rest ih =>
      by_cases here : byte = c
      · simp [strchr, here]
      · simp [strchr, here, ih, Ne.symm here]

theorem strchr_lt {i : Nat} (found : strchr c text = some i) : i < text.length := by
  induction text generalizing i with
  | nil => cases found
  | cons byte rest ih =>
      rw [strchr] at found
      split at found
      · cases found
        exact Nat.succ_pos _
      · obtain ⟨j, later, rfl⟩ := Option.map_eq_some_iff.mp found
        exact Nat.succ_lt_succ (ih later)

theorem strchr_append {front back : List UInt8} (absent : c ∉ front) :
    strchr c (front ++ c :: back) = some front.length := by
  induction front with
  | nil => simp [strchr]
  | cons byte front ih =>
      obtain ⟨other, rest⟩ := not_or.mp (List.mem_cons.not.mp absent)
      rw [List.cons_append, strchr, if_neg (Ne.symm other), ih rest]
      rfl

theorem strrchr_eq_none : strrchr c text = none ↔ c ∉ text := by
  induction text with
  | nil => simp [strrchr]
  | cons byte rest ih =>
      unfold strrchr
      cases found : strrchr c rest with
      | none =>
          have absent := ih.mp found
          by_cases here : byte = c
          · simp [here]
          · simp [here, absent, Ne.symm here]
      | some place =>
          have present : c ∈ rest := by
            by_contra absent
            rw [ih.mpr absent] at found
            cases found
          simp [present]

/-- A text that has the byte is split where it is last found. -/
theorem exists_last (member : c ∈ text) : ∃ front back, text = front ++ c :: back ∧ c ∉ back := by
  obtain ⟨back, front, split, absent⟩ := List.eq_append_cons_of_mem (List.mem_reverse.mpr member)
  refine ⟨front.reverse, back.reverse, ?_, by simpa using absent⟩
  have whole := congrArg List.reverse split
  simpa using whole

theorem strrchr_append {front back : List UInt8} (absent : c ∉ back) :
    strrchr c (front ++ c :: back) = some front.length := by
  induction front with
  | nil => simp [strrchr, strrchr_eq_none.mpr absent]
  | cons byte front ih =>
      rw [List.cons_append, strrchr, ih]
      rfl

/-- The first place of a byte splits a text in one way only. -/
theorem append_cons_inj {front back front' back' : List UInt8}
    (same : front ++ c :: back = front' ++ c :: back') (absent : c ∉ front) (absent' : c ∉ front') :
    front = front' ∧ back = back' := by
  have place : strchr c (front ++ c :: back) = some front.length := strchr_append absent
  rw [same, strchr_append absent'] at place
  obtain ⟨rfl, rest⟩ := List.append_inj same (Option.some.inj place).symm
  exact ⟨rfl, (List.cons.inj rest).2⟩

end Search

end CBuffer
