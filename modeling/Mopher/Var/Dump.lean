import Mopher.Base64.Buffers
import Mopher.Eval.Exp
import Mopher.Memdb.Vp

/-!
# Values in text buffers

`var_dump_data` and `var_dump` with the buffers that they fill.  What is left of the buffer
is handed down through lists and tables, so a value is rendered at a place in the buffer,
and the places of all values in it are counted from its start.
-/

set_option autoImplicit false

namespace Mopher.Dump

open CBuffer

/-- A blob is created with a length that is an `int`. -/
structure Blob where
  data : Bytes
  small : data.length < 2 ^ 31

/-- Data that is not a list or a table. -/
inductive Datum where
  | int (number : Int)
  | float (pattern : UInt64)
  | string (text : CString)
  | addr (address : Addr)
  | blob (blob : Blob)
  | pointer (address : Nat)
  | badType

/-- The data of a `var_t`.  The elements of a list or a table are `var_t`s with a name; those
of a table come as `ht_next` returns them. -/
inductive Data where
  | null
  | datum (datum : Datum)
  | collection (table : Bool) (elements : List (Option CString × Data))

def comma : UInt8 := 44

def equalsSign : UInt8 := 61

def opening (table : Bool) : UInt8 := if table then 123 else 40

def closing (table : Bool) : UInt8 := if table then 125 else 41

/-! ## Dumps -/

def snprintf (writes : Writes) (place size : Int) (text : Bytes) : Int × Writes :=
  (text.length, if 0 < size then puts writes place (text.take (size - 1).toNat ++ [0]) else writes)

/-- A text is copied if its length is below the size. -/
def copyFitting (writes : Writes) (place size : Int) (text : Bytes) : Int × Writes :=
  let len := cInt text.length
  (len, if len < size then puts writes place (text ++ [0]) else writes)

/-- The `switch` of `var_dump_data` without lists and tables. -/
def datumDump (libc : Libc) (datum : Datum) (writes : Writes) (place size : Int) : Int × Writes :=
  match datum with
  | .int number => snprintf writes place size (intText number)
  | .float pattern => snprintf writes place size (libc.floatText pattern)
  | .string text => copyFitting writes place size text.text
  | .addr address =>
      match libc.inetNtop address with
      | none => (-1, writes)
      | some text => copyFitting writes place size text
  | .blob blob =>
      ((blobDump size blob.data).1, overlay writes place (blobDump size blob.data).2)
  | .pointer address => snprintf writes place size (libc.pointerText address)
  | .badType => (-1, writes)

def nameText : Option CString → Bytes
  | none => []
  | some name => name.text

/-- The length is checked last. -/
def exhausted (size : Int) (call : Int × Writes) : Int × Writes :=
  if size ≤ call.1 then (-1, call.2) else call

/-- The name of a value and the value behind it; what is returned for the value is not
looked at. -/
def varDumpNamed (name : Option CString) (dumpData : Writes → Int → Int → Int × Writes)
    (writes : Writes) (place size : Int) : Int × Writes :=
  let text := nameText name
  let len := cInt text.length
  if name.isSome && decide (size ≤ len) then (-1, writes)
  else
    -- the count for `strncpy` is a `size_t`
    let writes := puts writes place (strncpy text (len % 2 ^ 64).toNat)
    let writes := put (put writes (place + len) equalsSign) (place + len + 1) 0
    let value := dumpData writes (place + len + 1) (size - (len + 1))
    (len + 1 + value.1, value.2)

/-- A comma goes in front of an element if there is something in front of it and room behind. -/
def separate (writes : Writes) (place size len : Int) : Int × Writes :=
  if 1 < len ∧ len + 1 < size then (len + 1, put (put writes (place + len) comma) (place + len + 1) 0)
  else (len, writes)

/-- An element of a table is dumped with its name. -/
def varDumpElement (table : Bool) (name : Option CString)
    (dumpData : Writes → Int → Int → Int × Writes) : Writes → Int → Int → Int × Writes :=
  if table then varDumpNamed name dumpData else dumpData

def close (table : Bool) (writes : Writes) (place size len : Int) : Int × Writes :=
  if len + 1 < size then
    (len + 1, put (put writes (place + len) (closing table)) (place + len + 1) 0)
  else (len, writes)

mutual

/-- `var_dump_data` into the buffer at `place`, where `size` bytes are left. -/
def varDumpData (libc : Libc) : Data → Writes → Int → Int → Int × Writes
  | .null, writes, place, size => snprintf writes place size (cstr "null")
  | .datum datum, writes, place, size => exhausted size (datumDump libc datum writes place size)
  | .collection table elements, writes, place, size =>
      let writes := if 1 < size then put writes place (opening table) else writes
      exhausted size (varDumpElements libc table elements writes place size 1)

/-- The loop of `var_dump_list_or_table` and its end. -/
def varDumpElements (libc : Libc) (table : Bool) : List (Option CString × Data) →
    Writes → Int → Int → Int → Int × Writes
  | [], writes, place, size, len => close table writes place size len
  | (name, data) :: rest, writes, place, size, len =>
      if size ≤ len then close table writes place size len
      else
        let start := separate writes place size len
        let element :=
          varDumpElement table name (varDumpData libc data) start.2 (place + start.1) (size - start.1)
        if element.1 = -1 then (-1, element.2)
        else varDumpElements libc table rest element.2 place size (start.1 + element.1)

end

/-- `var_dump` -/
def varDump (libc : Libc) (name : Option CString) (data : Data) (writes : Writes) (place size : Int) :
    Int × Writes :=
  varDumpNamed name (varDumpData libc data) writes place size

/-! ## The rendering -/

def datumText (libc : Libc) : Datum → Option Bytes
  | .int number => some (intText number)
  | .float pattern => some (libc.floatText pattern)
  | .string text => some text.text
  | .addr address => libc.inetNtop address
  | .blob blob => some (rfc4648 blob.data)
  | .pointer address => some (libc.pointerText address)
  | .badType => none

def named (name : Option CString) (text : Bytes) : Bytes := nameText name ++ equalsSign :: text

def elementText (table : Bool) (name : Option CString) (text : Bytes) : Bytes :=
  if table then named name text else text

mutual

/-- The whole text of a value; an address that `inet_ntop` refuses has none. -/
def render (libc : Libc) : Data → Option Bytes
  | .null => some (cstr "null")
  | .datum datum => datumText libc datum
  | .collection table elements =>
      (renderElements libc table elements).map fun pieces =>
        opening table :: ([comma].intercalate pieces ++ [closing table])

def renderElements (libc : Libc) (table : Bool) : List (Option CString × Data) → Option (List Bytes)
  | [] => some []
  | (name, data) :: rest => do
      let text ← render libc data
      let pieces ← renderElements libc table rest
      return elementText table name text :: pieces

end

/-- A buffer of `size` bytes has the whole text, or the dump is refused; nothing is written
behind the buffer. -/
def ExactOrRefused (size : Int) (text : Option Bytes) (call : Int × Writes) : Prop :=
  Within call.2 size ∧
    (call.1 = -1 ∨ ∃ whole, text = some whole ∧ call.1 = whole.length ∧ call.1 < size ∧
      HoldsText call.2 whole)

mutual

/-- No list anywhere in the value begins with an empty text in front of others. -/
def Separated (libc : Libc) : Data → Prop
  | .null => True
  | .datum _ => True
  | .collection table elements => SeparatedElements libc table elements ∧
      ∀ first second rest, renderElements libc table elements = some (first :: second :: rest) →
        first ≠ []

def SeparatedElements (libc : Libc) (table : Bool) : List (Option CString × Data) → Prop
  | [] => True
  | (_, data) :: rest => Separated libc data ∧ SeparatedElements libc table rest

end

/-! ## Data that is not a list or a table -/

section Datum
variable {libc : Libc} {datum : Datum} {writes : Writes} {place size : Int} {text : Bytes}

theorem snprintf_fits (fits : (text.length : Int) < size) :
    snprintf writes place size text = ((text.length : Int), puts writes place (text ++ [0])) := by
  unfold snprintf
  rw [if_pos (by omega), List.take_of_length_le (by omega)]

theorem copyFitting_fits (fits : (text.length : Int) < size) (small : size < 2 ^ 31) :
    copyFitting writes place size text = ((text.length : Int), puts writes place (text ++ [0])) := by
  have length : cInt text.length = text.length := cInt_of_bounds (by omega) (by omega)
  unfold copyFitting
  rw [length]
  exact congrArg (Prod.mk _) (if_pos fits)

theorem blobDump_fits {data : Bytes} (fits : ((rfc4648 data).length : Int) < size)
    (small : size < 2 ^ 31) :
    blobDump size data = (((rfc4648 data).length : Int), puts untouched 0 (rfc4648 data ++ [0])) := by
  rw [← base64Encode_eq_rfc4648] at fits ⊢
  exact blobDump_eq (by omega) (by omega)

theorem datumDump_blob {blob : Blob} :
    datumDump libc (.blob blob) writes place size =
      ((blobDump size blob.data).1, overlay writes place (blobDump size blob.data).2) := rfl

/-- A text that fits is dumped. -/
theorem datumDump_fits (small : size < 2 ^ 31) (rendered : datumText libc datum = some text)
    (fits : (text.length : Int) < size) :
    datumDump libc datum writes place size =
      ((text.length : Int), puts writes place (text ++ [0])) := by
  cases datum with
  | int number =>
      obtain rfl : intText number = text := Option.some.inj rendered
      exact snprintf_fits fits
  | float pattern =>
      obtain rfl : libc.floatText pattern = text := Option.some.inj rendered
      exact snprintf_fits fits
  | string source =>
      obtain rfl : source.text = text := Option.some.inj rendered
      exact copyFitting_fits fits small
  | addr address =>
      have found : libc.inetNtop address = some text := rendered
      simp only [datumDump, found]
      exact copyFitting_fits fits small
  | blob blob =>
      obtain rfl : rfc4648 blob.data = text := Option.some.inj rendered
      rw [datumDump_blob, blobDump_fits fits small, overlay_puts]
  | pointer address =>
      obtain rfl : libc.pointerText address = text := Option.some.inj rendered
      exact snprintf_fits fits
  | badType => cases rendered

end Datum

/-! ## Values that fit -/

section Fits
variable {libc : Libc} {table : Bool} {writes : Writes} {place size : Int} {text : Bytes}

/-- The elements behind the first one, with their commas. -/
def following (pieces : List Bytes) : Bytes := pieces.flatMap fun piece => comma :: piece

theorem intercalate_cons (piece : Bytes) (pieces : List Bytes) :
    [comma].intercalate (piece :: pieces) = piece ++ following pieces := by
  induction pieces generalizing piece with
  | nil => simp [following]
  | cons next pieces ih =>
      rw [List.intercalate_cons_cons, ih]
      simp [following]

theorem exhausted_fits {call : Int × Writes} (fits : call.1 < size) : exhausted size call = call := by
  unfold exhausted
  rw [if_neg (by omega)]

theorem put_two (here : UInt8) (last : UInt8) (at' : Int) :
    put (put writes at' here) (at' + 1) last = puts writes at' [here, last] := rfl

/-- The bracket goes over the NUL that ends the elements. -/
theorem close_fits {front tail : Bytes} (ends : tail.length ≤ 1)
    (fits : (front.length : Int) + 1 < size) :
    close table (puts writes place (front ++ tail)) place size front.length =
      (((front ++ [closing table]).length : Int), puts writes place (front ++ [closing table] ++ [0])) := by
  unfold close
  rw [if_pos fits, put_two, puts_over (by simp only [List.length_cons, List.length_nil]; omega),
    List.append_assoc, List.length_append]
  push_cast
  rfl

theorem separate_first {front tail : Bytes} (first : front.length = 1) :
    separate (puts writes place (front ++ tail)) place size front.length =
      ((front.length : Int), puts writes place (front ++ tail)) := by
  unfold separate
  rw [if_neg (by omega)]

theorem separate_fits {front tail : Bytes} (ends : tail.length ≤ 1) (some' : 1 < front.length)
    (fits : (front.length : Int) + 1 < size) :
    separate (puts writes place (front ++ tail)) place size front.length =
      (((front ++ [comma]).length : Int), puts writes place (front ++ [comma] ++ [0])) := by
  unfold separate
  rw [if_pos (by omega), put_two, puts_over (by simp only [List.length_cons, List.length_nil]; omega),
    List.append_assoc, List.length_append]
  push_cast
  rfl

/-- The name in front of a value that fits. -/
theorem varDumpNamed_fits {name : Option CString} {dumpData : Writes → Int → Int → Int × Writes}
    (small : size < 2 ^ 31) (fits : ((named name text).length : Int) < size)
    (dumps : ∀ writes place size, size < 2 ^ 31 → (text.length : Int) < size →
      dumpData writes place size = ((text.length : Int), puts writes place (text ++ [0]))) :
    varDumpNamed name dumpData writes place size =
      (((named name text).length : Int), puts writes place (named name text ++ [0])) := by
  have length : (named name text).length = (nameText name).length + 1 + text.length := by
    unfold named
    rw [List.length_append, List.length_cons]
    omega
  have len : cInt (nameText name).length = (nameText name).length := cInt_of_bounds (by omega) (by omega)
  have count : (((nameText name).length : Int) % 2 ^ 64).toNat = (nameText name).length := by omega
  have copied : strncpy (nameText name) (nameText name).length = nameText name := by
    rw [strncpy_of_le (Nat.le_refl _), List.take_length]
  unfold varDumpNamed
  simp only [len]
  have enough : ¬ (size ≤ ((nameText name).length : Int)) := by omega
  rw [count, copied, if_neg (by simp [enough]), dumps _ _ _ (by omega) (by omega), put_two]
  have joined : puts (puts writes place (nameText name)) (place + (nameText name).length)
      [equalsSign, 0] = puts writes place ((nameText name ++ [equalsSign]) ++ [0]) := by
    rw [← puts_append, List.append_assoc]
    rfl
  have next : place + ((nameText name).length : Int) + 1 =
      place + (nameText name ++ [equalsSign]).length := by
    rw [List.length_append, List.length_singleton]
    push_cast
    omega
  rw [joined, next, puts_over (by simp), length]
  simp only [named, List.append_assoc, List.cons_append]
  push_cast
  rfl

theorem varDumpElement_fits {name : Option CString} {dumpData : Writes → Int → Int → Int × Writes}
    (small : size < 2 ^ 31) (fits : ((elementText table name text).length : Int) < size)
    (dumps : ∀ writes place size, size < 2 ^ 31 → (text.length : Int) < size →
      dumpData writes place size = ((text.length : Int), puts writes place (text ++ [0]))) :
    varDumpElement table name dumpData writes place size =
      (((elementText table name text).length : Int),
        puts writes place (elementText table name text ++ [0])) := by
  cases table with
  | false => exact dumps writes place size small fits
  | true => exact varDumpNamed_fits small fits dumps

/-- An element goes over the NUL in front of it. -/
theorem element_over {front tail piece : Bytes} (ends : tail.length ≤ 1) :
    puts (puts writes place (front ++ tail)) (place + front.length) (piece ++ [0]) =
      puts writes place ((front ++ piece) ++ [0]) := by
  rw [puts_over (by rw [List.length_append, List.length_singleton]; omega), List.append_assoc]

theorem renderElements_cons {name : Option CString} {data : Data} {rest : List (Option CString × Data)}
    {pieces : List Bytes} (each : renderElements libc table ((name, data) :: rest) = some pieces) :
    ∃ text later, render libc data = some text ∧ renderElements libc table rest = some later ∧
      pieces = elementText table name text :: later := by
  rw [renderElements] at each
  obtain ⟨text, rendered, each⟩ := Option.bind_eq_some_iff.mp each
  obtain ⟨later, others, each⟩ := Option.bind_eq_some_iff.mp each
  exact ⟨text, later, rendered, others, (Option.some.inj each).symm⟩

mutual

/-- A value is dumped as it is rendered, if that is shorter than the buffer. -/
theorem varDumpData_fits (libc : Libc) : ∀ (data : Data) (text : Bytes), Separated libc data →
    render libc data = some text → ∀ (writes : Writes) (place size : Int), size < 2 ^ 31 →
    (text.length : Int) < size →
    varDumpData libc data writes place size = ((text.length : Int), puts writes place (text ++ [0]))
  | .null, text, _, rendered, writes, place, size, _, fits => by
      obtain rfl : cstr "null" = text := Option.some.inj rendered
      rw [varDumpData]
      exact snprintf_fits fits
  | .datum datum, text, _, rendered, writes, place, size, small, fits => by
      have found : datumText libc datum = some text := rendered
      rw [varDumpData, datumDump_fits small found fits]
      exact exhausted_fits fits
  | .collection table [], text, _, rendered, writes, place, size, _, fits => by
      obtain rfl : [opening table, closing table] = text := Option.some.inj rendered
      simp only [List.length_cons, List.length_nil] at fits
      have opened : put writes place (opening table) = puts writes place ([opening table] ++ []) := rfl
      rw [varDumpData, if_pos (by omega), opened, varDumpElements]
      have closed : close table (puts writes place ([opening table] ++ [])) place size
          ([opening table] : Bytes).length = _ := close_fits (by decide) (by simp; omega)
      exact (congrArg (exhausted size) closed).trans (exhausted_fits (by simp; omega))
  | .collection table ((name, data) :: rest), whole, separated, rendered, writes, place, size, small,
      fits => by
      rw [render] at rendered
      obtain ⟨pieces, each, rfl⟩ := Option.map_eq_some_iff.mp rendered
      obtain ⟨text, later, rendered', others, rfl⟩ := renderElements_cons each
      have shape : opening table ::
          ([comma].intercalate (elementText table name text :: later) ++ [closing table]) =
          [opening table] ++ elementText table name text ++ following later ++ [closing table] := by
        rw [intercalate_cons]
        simp
      rw [shape] at fits ⊢
      have lengths := fits
      simp only [List.length_append, List.length_singleton] at lengths
      push_cast at lengths
      have opened : put writes place (opening table) = puts writes place ([opening table] ++ []) := rfl
      have element : varDumpElement table name (varDumpData libc data)
          (puts writes place ([opening table] ++ [])) (place + ([opening table] : Bytes).length)
          (size - ([opening table] : Bytes).length) = _ :=
        varDumpElement_fits (by omega) (by simp only [List.length_singleton]; push_cast; omega)
          (varDumpData_fits libc data text separated.1.1 rendered')
      rw [element_over (by decide)] at element
      -- more elements need something behind the bracket
      have behind : rest ≠ [] → 1 < ([opening table] ++ elementText table name text).length := by
        intro more
        obtain ⟨⟨name', data'⟩, rest', rfl⟩ := List.exists_cons_of_ne_nil more
        obtain ⟨text', later', -, -, rfl⟩ := renderElements_cons others
        have some' := List.length_pos_iff.mpr (separated.2 _ _ _ each)
        rw [List.length_append, List.length_singleton]
        omega
      have rest' := varDumpElements_fits libc table rest ([opening table] ++ elementText table name text)
        [0] later separated.1.2 others (by decide) behind writes place size small fits
      have first : separate (puts writes place ([opening table] ++ [])) place size
          ([opening table] : Bytes).length = _ := separate_first rfl
      have one : (1 : Int) = ([opening table] : Bytes).length := rfl
      rw [varDumpData, if_pos (by omega), opened, varDumpElements, if_neg (by omega), one, first]
      simp only []
      rw [element]
      simp only []
      rw [if_neg (by omega)]
      refine (congrArg (exhausted size) ?_).trans (exhausted_fits fits)
      rw [← rest']
      congr 1
      simp only [List.length_append]
      push_cast
      rfl

theorem varDumpElements_fits (libc : Libc) (table : Bool) : ∀ (elements : List (Option CString × Data))
    (front tail : Bytes) (pieces : List Bytes), SeparatedElements libc table elements →
    renderElements libc table elements = some pieces → tail.length ≤ 1 →
    (elements ≠ [] → 1 < front.length) → ∀ (writes : Writes) (place size : Int), size < 2 ^ 31 →
    ((front ++ following pieces ++ [closing table]).length : Int) < size →
    varDumpElements libc table elements (puts writes place (front ++ tail)) place size front.length =
      (((front ++ following pieces ++ [closing table]).length : Int),
        puts writes place (front ++ following pieces ++ [closing table] ++ [0]))
  | [], front, tail, pieces, _, each, ends, _, writes, place, size, small, fits => by
      obtain rfl : [] = pieces := Option.some.inj each
      rw [varDumpElements, following, List.flatMap_nil, List.append_nil]
      refine close_fits ends ?_
      simp only [following, List.flatMap_nil, List.append_nil, List.length_append,
        List.length_singleton] at fits
      push_cast at fits
      exact fits
  | (name, data) :: rest, front, tail, pieces, separated, each, ends, behind, writes, place, size,
      small, fits => by
      obtain ⟨text, later, rendered, others, rfl⟩ := renderElements_cons each
      have something := behind (by simp)
      have shape : front ++ following (elementText table name text :: later) =
          front ++ [comma] ++ elementText table name text ++ following later := by
        simp [following]
      rw [shape] at fits ⊢
      have lengths := fits
      simp only [List.length_append, List.length_singleton] at lengths
      push_cast at lengths
      have element : varDumpElement table name (varDumpData libc data)
          (puts writes place (front ++ [comma] ++ [0])) (place + (front ++ [comma]).length)
          (size - (front ++ [comma]).length) = _ :=
        varDumpElement_fits (by omega)
          (by simp only [List.length_append, List.length_singleton]; push_cast; omega)
          (varDumpData_fits libc data text separated.1 rendered)
      rw [element_over (by decide)] at element
      have separated' : separate (puts writes place (front ++ tail)) place size front.length = _ :=
        separate_fits ends something (by omega)
      have rest' := varDumpElements_fits libc table rest (front ++ [comma] ++ elementText table name text)
        [0] later separated.2 others (by decide) (fun _ => by simp; omega) writes place size small fits
      rw [varDumpElements, if_neg (by omega), separated']
      simp only []
      rw [element]
      simp only []
      rw [if_neg (by omega), ← rest']
      congr 1
      simp only [List.length_append]
      push_cast
      rfl

end

end Fits

end Mopher.Dump
