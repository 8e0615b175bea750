import Mopher.Var.Dump

/-!
# How much room a value takes

The dump of a value by its lengths only.  A text is refused where it is not shorter than
what is left of the buffer, and with it the list it is in.  A table does not notice that the
value of an entry was refused and goes on behind its name; a list whose last element ends
the buffer is left open; and a name that ends one byte before the buffer does is written
past its end.
-/

set_option autoImplicit false

namespace Mopher.Dump

open CBuffer

/-- How a dump ends: with -1, behind the buffer, or with a number of bytes. -/
inductive Fate where
  | refused
  | overrun
  | taken (bytes : Nat)
deriving Repr, DecidableEq

/-- The length of a text as it is compared with the size. -/
def measured : Datum → Bytes → Int
  | .string _, text => cInt text.length
  | .addr _, text => cInt text.length
  | .blob blob, _ => cInt (base64Encsize blob.data.length + 1) - 1
  | _, text => text.length

def datumFate (libc : Libc) (datum : Datum) (size : Int) : Fate :=
  match datumText libc datum with
  | none => .refused
  | some text =>
      if size ≤ measured datum text then .refused
      else if size ≤ text.length then .overrun
      else .taken text.length

/-- A value that is refused behind its name leaves the name. -/
def namedFate (name : Option CString) (fate : Int → Fate) (size : Int) : Fate :=
  let len := cInt (nameText name).length
  if size ≤ len then .refused
  else if len < 0 ∨ len + 1 = size then .overrun
  else
    match fate (size - (len + 1)) with
    | .refused => .taken len.toNat
    | .overrun => .overrun
    | .taken bytes => .taken (len.toNat + 1 + bytes)

def elementFate (table : Bool) (name : Option CString) (fate : Int → Fate) : Int → Fate :=
  if table then namedFate name fate else fate

/-- Where an element begins, behind its comma. -/
def elementPlace (size : Int) (len : Nat) : Nat := if 1 < len ∧ (len : Int) + 1 < size then len + 1 else len

mutual

def fate (libc : Libc) : Data → Int → Fate
  | .null, _ => .taken 4
  | .datum datum, size => datumFate libc datum size
  | .collection table elements, size => elementsFate libc table elements size 1

/-- The elements behind the first `len` bytes. -/
def elementsFate (libc : Libc) (table : Bool) : List (Option CString × Data) → Int → Nat → Fate
  | [], size, len =>
      if size ≤ len then .refused else .taken (if (len : Int) + 1 < size then len + 1 else len)
  | (name, data) :: rest, size, len =>
      if size ≤ len then .refused
      else
        match elementFate table name (fate libc data) (size - elementPlace size len) with
        | .refused => .refused
        | .overrun => .overrun
        | .taken bytes => elementsFate libc table rest size (elementPlace size len + bytes)

end

/-- A call ends as its fate says; `stop` is where the buffer ends. -/
def Follows (stop : Int) (call : Int × Writes) : Fate → Prop
  | .refused => call.1 = -1 ∧ Within call.2 stop
  | .overrun => ¬ Within call.2 stop
  | .taken bytes => call.1 = bytes ∧ Within call.2 stop

/-! ## What was written stays -/

section Grows
variable {libc : Libc} {writes : Writes} {place size len : Int}

theorem snprintf_grows {text : Bytes} : Grows writes (snprintf writes place size text).2 := by
  unfold snprintf
  simp only []
  split
  · exact grows_puts
  · exact Grows.refl

theorem copyFitting_grows {text : Bytes} : Grows writes (copyFitting writes place size text).2 := by
  unfold copyFitting
  simp only []
  split
  · exact grows_puts
  · exact Grows.refl

theorem datumDump_grows (datum : Datum) : Grows writes (datumDump libc datum writes place size).2 := by
  cases datum with
  | int number => exact snprintf_grows
  | float pattern => exact snprintf_grows
  | string text => exact copyFitting_grows
  | addr address =>
      unfold datumDump
      simp only []
      split
      · exact Grows.refl
      · exact copyFitting_grows
  | blob blob =>
      rw [datumDump_blob]
      simp only []
      exact grows_overlay
  | pointer address => exact snprintf_grows
  | badType => exact Grows.refl

theorem exhausted_snd {call : Int × Writes} : (exhausted size call).2 = call.2 := by
  unfold exhausted
  split
  · rfl
  · rfl

theorem varDumpNamed_grows {name : Option CString} {dumpData : Writes → Int → Int → Int × Writes}
    (grows : ∀ writes place size, Grows writes (dumpData writes place size).2) :
    Grows writes (varDumpNamed name dumpData writes place size).2 := by
  unfold varDumpNamed
  simp only []
  split
  · exact Grows.refl
  · simp only []
    exact grows_puts.trans (grows_put.trans (grows_put.trans (grows _ _ _)))

theorem varDumpElement_grows {table : Bool} {name : Option CString}
    {dumpData : Writes → Int → Int → Int × Writes}
    (grows : ∀ writes place size, Grows writes (dumpData writes place size).2) :
    Grows writes (varDumpElement table name dumpData writes place size).2 := by
  cases table with
  | false => exact grows writes place size
  | true => exact varDumpNamed_grows grows

theorem separate_grows : Grows writes (separate writes place size len).2 := by
  unfold separate
  split
  · exact grows_put.trans grows_put
  · exact Grows.refl

theorem close_grows {table : Bool} : Grows writes (close table writes place size len).2 := by
  unfold close
  split
  · exact grows_put.trans grows_put
  · exact Grows.refl

mutual

theorem varDumpData_grows (libc : Libc) : ∀ (data : Data) (writes : Writes) (place size : Int),
    Grows writes (varDumpData libc data writes place size).2
  | .null, writes, place, size => snprintf_grows
  | .datum datum, writes, place, size => by
      rw [varDumpData, exhausted_snd]
      exact datumDump_grows datum
  | .collection table elements, writes, place, size => by
      rw [varDumpData, exhausted_snd]
      refine Grows.trans ?_ (varDumpElements_grows libc table elements _ place size 1)
      split
      · exact grows_put
      · exact Grows.refl

theorem varDumpElements_grows (libc : Libc) (table : Bool) : ∀ (elements : List (Option CString × Data))
    (writes : Writes) (place size len : Int),
    Grows writes (varDumpElements libc table elements writes place size len).2
  | [], writes, place, size, len => close_grows
  | (name, data) :: rest, writes, place, size, len => by
      rw [varDumpElements]
      split
      · exact close_grows
      · have start : Grows writes (separate writes place size len).2 := separate_grows
        have element : Grows (separate writes place size len).2
            (varDumpElement table name (varDumpData libc data) (separate writes place size len).2
              (place + (separate writes place size len).1)
              (size - (separate writes place size len).1)).2 :=
          varDumpElement_grows (varDumpData_grows libc data)
        simp only []
        split
        · exact start.trans element
        · exact start.trans (element.trans (varDumpElements_grows libc table rest _ place size _))

end

end Grows

/-! ## Dumps follow their fate -/

section Follows
variable {libc : Libc} {writes : Writes} {place size stop len : Int} {text : Bytes}

theorem exhausted_refused {call : Int × Writes} (within : Within call.2 stop)
    (long : size ≤ call.1 ∨ call.1 = -1) : Follows stop (exhausted size call) .refused := by
  refine ⟨?_, by rwa [exhausted_snd]⟩
  unfold exhausted
  split
  · rfl
  next below => exact long.resolve_left below

theorem exhausted_overrun {call : Int × Writes} (outside : ¬ Within call.2 stop) :
    Follows stop (exhausted size call) .overrun := by
  rwa [Follows, exhausted_snd]

theorem exhausted_taken {call : Int × Writes} {bytes : Nat} (within : Within call.2 stop)
    (length : call.1 = bytes) (fits : (bytes : Int) < size) :
    Follows stop (exhausted size call) (.taken bytes) := by
  rw [exhausted_fits (by omega)]
  exact ⟨length, within⟩

theorem within_text (within : Within writes stop) (low : 0 ≤ place) (ends : place + size = stop)
    (fits : (text.length : Int) < size) : Within (puts writes place (text ++ [0])) stop := by
  refine within.puts low ?_
  rw [List.length_append, List.length_singleton]
  omega

theorem overrun_text (ends : place + size = stop) (long : size ≤ text.length) :
    ¬ Within (puts writes place (text ++ [0])) stop := by
  intro within
  have last := within.of_puts (by simp)
  rw [List.length_append, List.length_singleton] at last
  omega

theorem snprintf_follows (within : Within writes stop) (low : 0 ≤ place) (ends : place + size = stop)
    (room : 0 < size) :
    Follows stop (exhausted size (snprintf writes place size text))
      (if size ≤ text.length then .refused else if size ≤ text.length then .overrun
        else .taken text.length) := by
  by_cases long : size ≤ text.length
  · rw [if_pos long]
    refine exhausted_refused ?_ (.inl long)
    unfold snprintf
    rw [if_pos room]
    refine within.puts low ?_
    rw [List.length_append, List.length_take, List.length_singleton]
    omega
  · rw [if_neg long, if_neg long, snprintf_fits (by omega)]
    exact exhausted_taken (within_text within low ends (by omega)) rfl (by omega)

theorem copyFitting_follows (within : Within writes stop) (low : 0 ≤ place)
    (ends : place + size = stop) (small : size < 2 ^ 31) :
    Follows stop (exhausted size (copyFitting writes place size text))
      (if size ≤ cInt text.length then .refused else if size ≤ text.length then .overrun
        else .taken text.length) := by
  by_cases refused : size ≤ cInt text.length
  · rw [if_pos refused]
    refine exhausted_refused ?_ (.inl refused)
    unfold copyFitting
    simp only []
    rwa [if_neg (by omega)]
  · rw [if_neg refused]
    by_cases long : size ≤ text.length
    · rw [if_pos long]
      refine exhausted_overrun ?_
      unfold copyFitting
      simp only []
      rw [if_pos (by omega)]
      exact overrun_text ends long
    · rw [if_neg long, copyFitting_fits (by omega) small]
      exact exhausted_taken (within_text within low ends (by omega)) rfl (by omega)

/-- The encoder writes its last NUL behind all characters. -/
theorem blobDump_overrun {blob : Blob} (passes : ¬ size < cInt (base64Encsize blob.data.length + 1))
    (positive : 0 < size) (long : size ≤ (rfc4648 blob.data).length) :
    ∃ i, size ≤ i ∧ (blobDump size blob.data).2 i ≠ none := by
  have small := blob.small
  rw [← base64Encode_eq_rfc4648, length_base64Encode] at long
  have some' : (blob.data.length : Int) ≠ 0 := by omega
  have length := length_encodeLoop blob.data
  refine ⟨(encodeLoop blob.data).length, by omega, ?_⟩
  unfold blobDump base64EncodeInto
  rw [cInt_of_bounds (by omega) (by omega)]
  simp only [passes, some', if_false, Int.toNat_natCast, List.take_length, put_same]
  simp

theorem blob_follows {blob : Blob} (within : Within writes stop) (low : 0 ≤ place)
    (ends : place + size = stop) (room : 0 < size) (small : size < 2 ^ 31) :
    Follows stop (exhausted size (datumDump libc (.blob blob) writes place size))
      (datumFate libc (.blob blob) size) := by
  have fates : datumFate libc (.blob blob) size =
      if size ≤ cInt (base64Encsize blob.data.length + 1) - 1 then .refused
      else if size ≤ (rfc4648 blob.data).length then .overrun
      else .taken (rfc4648 blob.data).length := rfl
  have short := blob.small
  rw [fates, datumDump_blob]
  by_cases refused : size < cInt (base64Encsize blob.data.length + 1)
  · have nothing : blobDump size blob.data = (-1, untouched) := by
      unfold blobDump base64EncodeInto
      rw [cInt_of_bounds (by omega) (by omega)]
      exact if_pos refused
    rw [if_pos (by omega), nothing]
    exact exhausted_refused within (.inr rfl)
  · rw [if_neg (by omega)]
    by_cases long : size ≤ (rfc4648 blob.data).length
    · rw [if_pos long]
      obtain ⟨i, past, written⟩ := blobDump_overrun refused room long
      refine exhausted_overrun fun inside => ?_
      have place' := inside (place + i) (by
        have back : place + i - place = i := by omega
        simp only [overlay, back]
        cases found : (blobDump size blob.data).2 i with
        | none => exact (written found).elim
        | some byte => simp)
      omega
    · rw [if_neg long, blobDump_fits (by omega) small]
      simp only [overlay_puts]
      exact exhausted_taken (within_text within low ends (by omega)) rfl (by omega)

theorem datum_follows {datum : Datum} (within : Within writes stop) (low : 0 ≤ place)
    (ends : place + size = stop) (room : 0 < size) (small : size < 2 ^ 31) :
    Follows stop (exhausted size (datumDump libc datum writes place size))
      (datumFate libc datum size) := by
  cases datum with
  | int number => exact snprintf_follows within low ends room
  | float pattern => exact snprintf_follows within low ends room
  | string text => exact copyFitting_follows within low ends small
  | addr address =>
      unfold datumDump datumFate datumText
      simp only []
      cases libc.inetNtop address with
      | none => exact exhausted_refused within (.inr rfl)
      | some text => exact copyFitting_follows within low ends small
  | blob blob => exact blob_follows within low ends room small
  | pointer address => exact snprintf_follows within low ends room
  | badType => exact exhausted_refused within (.inr rfl)

/-- How a value is dumped wherever the buffer has room left. -/
def FollowsEverywhere (dumpData : Writes → Int → Int → Int × Writes) (fate : Int → Fate) : Prop :=
  ∀ writes place size stop, Within writes stop → 0 ≤ place → place + size = stop → 0 < size →
    size < 2 ^ 31 → Follows stop (dumpData writes place size) (fate size)

/-- A name and its equals sign stay in the buffer if the length is natural as an `int` and
the NUL has room. -/
theorem name_within_iff {text : Bytes} {len : Int} (within : Within writes stop) (low : 0 ≤ place)
    (ends : place + size = stop) (least : -2 ^ 31 ≤ len) (short : len < size) (small : size < 2 ^ 31) :
    Within (put (put (puts writes place (strncpy text (len % 2 ^ 64).toNat)) (place + len) equalsSign)
      (place + len + 1) 0) stop ↔ ¬ (len < 0 ∨ len + 1 = size) := by
  constructor
  · rintro inside (negative | last)
    · -- as a `size_t` the length is larger than any buffer
      have copied := (grows_put.trans grows_put).within inside
      have some' : strncpy text (len % 2 ^ 64).toNat ≠ [] := by
        intro none'
        have length := length_strncpy text (len % 2 ^ 64).toNat
        rw [none', List.length_nil] at length
        omega
      have fits := copied.of_puts some'
      rw [length_strncpy] at fits
      omega
    · have nul := inside.of_put
      omega
  · intro room
    have count : (len % 2 ^ 64).toNat = len.toNat := by omega
    refine Within.put (Within.put (within.puts low ?_) ?_ ?_) ?_ ?_
    · rw [length_strncpy]
      omega
    · omega
    · omega
    · omega
    · omega

theorem varDumpNamed_follows {name : Option CString} {dumpData : Writes → Int → Int → Int × Writes}
    {fate : Int → Fate} (follows : FollowsEverywhere dumpData fate)
    (grows : ∀ writes place size, Grows writes (dumpData writes place size).2) :
    FollowsEverywhere (varDumpNamed name dumpData) (namedFate name fate) := by
  intro writes place size stop within low ends room small
  have bounds := cInt_bounds (nameText name).length
  have natural := cInt_le (n := (nameText name).length) (by omega)
  unfold varDumpNamed namedFate
  simp only []
  by_cases refused : size ≤ cInt (nameText name).length
  · -- only a name that is there is too long
    have present : name.isSome = true := by
      cases name with
      | none =>
          simp only [nameText, List.length_nil, Nat.cast_zero] at natural refused
          omega
      | some text => rfl
    rw [if_pos refused, if_pos (by simp [present, refused])]
    exact ⟨rfl, within⟩
  · rw [if_neg refused, if_neg (by simp [refused])]
    generalize same : cInt (nameText name).length = len at *
    have inside : Within (put (put (puts writes place (strncpy (nameText name) (len % 2 ^ 64).toNat))
        (place + len) equalsSign) (place + len + 1) 0) stop ↔ _ :=
      name_within_iff within low ends (by omega) (by omega) small
    by_cases past : len < 0 ∨ len + 1 = size
    · rw [if_pos past]
      intro dumped
      exact inside.mp ((grows _ _ _).within dumped) past
    · rw [if_neg past]
      have text := inside.mpr past
      have value := follows _ (place + len + 1) (size - (len + 1)) stop text (by omega) (by omega)
        (by omega) (by omega)
      cases ending : fate (size - (len + 1)) with
      | refused =>
          rw [ending] at value
          refine ⟨?_, value.2⟩
          simp only [value.1]
          omega
      | overrun =>
          rw [ending] at value
          exact value
      | taken bytes =>
          rw [ending] at value
          refine ⟨?_, value.2⟩
          simp only [value.1]
          push_cast
          omega

theorem varDumpElement_follows {table : Bool} {name : Option CString}
    {dumpData : Writes → Int → Int → Int × Writes} {fate : Int → Fate}
    (follows : FollowsEverywhere dumpData fate)
    (grows : ∀ writes place size, Grows writes (dumpData writes place size).2) :
    FollowsEverywhere (varDumpElement table name dumpData) (elementFate table name fate) := by
  cases table with
  | false => exact follows
  | true => exact varDumpNamed_follows follows grows

theorem close_follows {table : Bool} {len : Nat} (within : Within writes stop) (low : 0 ≤ place)
    (ends : place + size = stop) :
    Follows stop (exhausted size (close table writes place size len))
      (if size ≤ len then .refused else .taken (if (len : Int) + 1 < size then len + 1 else len)) := by
  unfold close
  by_cases full : size ≤ len
  · rw [if_pos full, if_neg (by omega)]
    exact exhausted_refused within (.inl full)
  · rw [if_neg full]
    by_cases room : (len : Int) + 1 < size
    · rw [if_pos room, if_pos room]
      refine exhausted_taken ?_ (by simp) (by omega)
      exact (within.put (by omega) (by omega)).put (by omega) (by omega)
    · rw [if_neg room, if_neg room]
      exact exhausted_taken within rfl (by omega)

theorem separate_eq {len : Nat} :
    (separate writes place size len).1 = elementPlace size len := by
  unfold separate elementPlace
  by_cases comma : 1 < len ∧ (len : Int) + 1 < size
  · rw [if_pos (by omega), if_pos comma]
    simp
  · rw [if_neg (by omega), if_neg comma]

theorem separate_within {len : Nat} (within : Within writes stop) (low : 0 ≤ place)
    (ends : place + size = stop) : Within (separate writes place size len).2 stop := by
  unfold separate
  split
  · exact (within.put (by omega) (by omega)).put (by omega) (by omega)
  · exact within

theorem elementPlace_lt {len : Nat} (room : (len : Int) < size) : (elementPlace size len : Int) < size := by
  unfold elementPlace
  split
  · omega
  · exact room

mutual

theorem varDumpData_follows (libc : Libc) : ∀ data : Data,
    FollowsEverywhere (varDumpData libc data) (fate libc data)
  | .null => by
      intro writes place size stop within low ends room small
      refine ⟨rfl, ?_⟩
      rw [varDumpData, snprintf, if_pos room]
      refine within.puts low ?_
      rw [List.length_append, List.length_take, List.length_singleton]
      omega
  | .datum datum => by
      intro writes place size stop within low ends room small
      exact datum_follows within low ends room small
  | .collection table elements => by
      intro writes place size stop within low ends room small
      rw [varDumpData, fate]
      refine varDumpElements_follows libc table elements _ place size stop 1 ?_ low ends small
      split
      · exact within.put low (by omega)
      · exact within

theorem varDumpElements_follows (libc : Libc) (table : Bool) :
    ∀ (elements : List (Option CString × Data)) (writes : Writes) (place size stop : Int) (len : Nat),
    Within writes stop → 0 ≤ place → place + size = stop → size < 2 ^ 31 →
    Follows stop (exhausted size (varDumpElements libc table elements writes place size len))
      (elementsFate libc table elements size len)
  | [], writes, place, size, stop, len, within, low, ends, _ => close_follows within low ends
  | (name, data) :: rest, writes, place, size, stop, len, within, low, ends, small => by
      rw [varDumpElements, elementsFate]
      by_cases full : size ≤ len
      · have closed : Follows stop (exhausted size (close table writes place size len)) _ :=
          close_follows within low ends
        rw [if_pos full] at closed ⊢
        rwa [if_pos full]
      · rw [if_neg full, if_neg full]
        simp only [separate_eq]
        have room : (elementPlace size len : Int) < size := elementPlace_lt (by omega)
        have element : Follows stop
            (varDumpElement table name (varDumpData libc data) (separate writes place size len).2
              (place + elementPlace size len) (size - elementPlace size len))
            (elementFate table name (fate libc data) (size - elementPlace size len)) :=
          varDumpElement_follows (varDumpData_follows libc data) (varDumpData_grows libc data) _ _ _
            stop (separate_within within low ends) (by omega) (by omega) (by omega) (by omega)
        cases ending : elementFate table name (fate libc data) (size - elementPlace size len) with
        | refused =>
            rw [ending] at element
            simp only [element.1, if_true]
            exact exhausted_refused element.2 (.inr rfl)
        | overrun =>
            rw [ending] at element
            split
            · exact exhausted_overrun element
            · refine exhausted_overrun fun inside => element ?_
              exact (varDumpElements_grows libc table rest _ place size _).within inside
        | taken bytes =>
            rw [ending] at element
            obtain ⟨length, inside⟩ := element
            have positive : ¬ (bytes : Int) = -1 := by omega
            have next : (elementPlace size len : Int) + bytes = (elementPlace size len + bytes : Nat) := by
              push_cast
              rfl
            simp only [length, positive, if_false, next]
            exact varDumpElements_follows libc table rest _ place size stop _ inside low ends small

end

end Follows

/-! ## What is missing is not counted -/

section Count
variable {libc : Libc} {size : Int}

theorem datumFate_le {datum : Datum} {bytes : Nat} {text : Bytes}
    (ending : datumFate libc datum size = .taken bytes) (rendered : datumText libc datum = some text) :
    bytes = text.length := by
  unfold datumFate at ending
  rw [rendered] at ending
  simp only [] at ending
  split at ending
  · cases ending
  · split at ending
    · cases ending
    · exact (Fate.taken.inj ending).symm

/-- An element takes its whole text only if its value does. -/
theorem elementFate_le {table : Bool} {name : Option CString} {fate : Int → Fate} {bytes : Nat}
    {text : Bytes} {whole : Prop}
    (value : ∀ size bytes, fate size = .taken bytes →
      bytes ≤ text.length ∧ (bytes = text.length → whole))
    (ending : elementFate table name fate size = .taken bytes) :
    bytes ≤ (elementText table name text).length ∧
      (bytes = (elementText table name text).length → whole) := by
  cases table with
  | false => exact value size bytes ending
  | true =>
      have length : (named name text).length = (nameText name).length + 1 + text.length := by
        unfold named
        rw [List.length_append, List.length_cons]
        omega
      have natural := cInt_le (n := (nameText name).length) (by omega)
      have named' : namedFate name fate size = .taken bytes := ending
      have shown : elementText true name text = named name text := rfl
      rw [shown, length]
      unfold namedFate at named'
      simp only [] at named'
      split at named'
      · cases named'
      · split at named'
        · cases named'
        · cases inner : fate (size - (cInt (nameText name).length + 1)) with
          | refused =>
              rw [inner] at named'
              have count := Fate.taken.inj named'
              exact ⟨by omega, fun _ => by omega⟩
          | overrun =>
              rw [inner] at named'
              cases named'
          | taken inside =>
              rw [inner] at named'
              have count := Fate.taken.inj named'
              obtain ⟨least, most⟩ := value _ _ inner
              exact ⟨by omega, fun all => most (by omega)⟩

theorem elementPlace_le {len : Nat} : elementPlace size len ≤ len + 1 := by
  unfold elementPlace
  split
  · omega
  · omega

theorem elementPlace_comma {len : Nat} (comma : elementPlace size len = len + 1) : 1 < len := by
  unfold elementPlace at comma
  split at comma
  next both => exact both.1
  · omega

theorem following_cons (piece : Bytes) (pieces : List Bytes) :
    (following (piece :: pieces)).length = piece.length + 1 + (following pieces).length := by
  unfold following
  rw [List.flatMap_cons, List.length_append, List.length_cons]

mutual

/-- A value takes no more than its text has, and as much only if no comma is missing. -/
theorem fate_le (libc : Libc) : ∀ (data : Data) (text : Bytes), render libc data = some text →
    ∀ (size : Int) (bytes : Nat), fate libc data size = .taken bytes →
    bytes ≤ text.length ∧ (bytes = text.length → Separated libc data)
  | .null, text, rendered, size, bytes, ending => by
      obtain rfl : cstr "null" = text := Option.some.inj rendered
      have count : 4 = bytes := Fate.taken.inj ending
      exact ⟨by rw [← count]; decide, fun _ => trivial⟩
  | .datum datum, text, rendered, size, bytes, ending =>
      ⟨(datumFate_le ending rendered).le, fun _ => trivial⟩
  | .collection table [], text, rendered, size, bytes, ending => by
      obtain rfl : [opening table, closing table] = text := Option.some.inj rendered
      rw [fate, elementsFate] at ending
      refine ⟨?_, fun _ => ⟨trivial, ?_⟩⟩
      · split at ending
        · cases ending
        · have count := Fate.taken.inj ending
          simp only [List.length_cons, List.length_nil]
          split at count
          · omega
          · omega
      · intro first second rest each
        cases each
  | .collection table ((name, data) :: rest), whole, rendered, size, bytes, ending => by
      rw [render] at rendered
      obtain ⟨pieces, each, rfl⟩ := Option.map_eq_some_iff.mp rendered
      obtain ⟨text, later, rendered', others, rfl⟩ := renderElements_cons each
      have length : (opening table ::
          ([comma].intercalate (elementText table name text :: later) ++ [closing table])).length =
          1 + (elementText table name text).length + (following later).length + 1 := by
        rw [intercalate_cons]
        simp only [List.length_cons, List.length_append, List.length_nil]
        omega
      rw [length]
      rw [fate, elementsFate] at ending
      split at ending
      · cases ending
      · have first : elementPlace size 1 = 1 := if_neg (by omega)
        rw [first] at ending
        cases inner : elementFate table name (fate libc data) (size - (1 : Nat)) with
        | refused =>
            rw [inner] at ending
            cases ending
        | overrun =>
            rw [inner] at ending
            cases ending
        | taken inside =>
            rw [inner] at ending
            obtain ⟨least, most⟩ := elementFate_le (fate_le libc data text rendered') inner
            obtain ⟨least', most'⟩ := elementsFate_le libc table rest later others size _ bytes ending
            refine ⟨by omega, fun all => ?_⟩
            have separated := most' (by omega)
            refine ⟨⟨most (by omega), separated.1⟩, ?_⟩
            -- more elements follow something behind the bracket
            intro first second rest' shape
            obtain ⟨rfl, rfl⟩ := List.cons.inj (Option.some.inj (each.symm.trans shape))
            have more : rest ≠ [] := by
              rintro rfl
              cases others
            rw [← List.length_pos_iff]
            have behind := separated.2 more
            omega

theorem elementsFate_le (libc : Libc) (table : Bool) : ∀ (elements : List (Option CString × Data))
    (pieces : List Bytes), renderElements libc table elements = some pieces →
    ∀ (size : Int) (len bytes : Nat), elementsFate libc table elements size len = .taken bytes →
    bytes ≤ len + (following pieces).length + 1 ∧
      (bytes = len + (following pieces).length + 1 →
        SeparatedElements libc table elements ∧ (elements ≠ [] → 1 < len))
  | [], pieces, each, size, len, bytes, ending => by
      rw [elementsFate] at ending
      refine ⟨?_, fun _ => ⟨trivial, fun absurd => (absurd rfl).elim⟩⟩
      split at ending
      · cases ending
      · have count := Fate.taken.inj ending
        split at count
        · omega
        · omega
  | (name, data) :: rest, pieces, each, size, len, bytes, ending => by
      obtain ⟨text, later, rendered, others, rfl⟩ := renderElements_cons each
      have place : elementPlace size len ≤ len + 1 := elementPlace_le
      rw [following_cons]
      rw [elementsFate] at ending
      split at ending
      · cases ending
      · cases inner : elementFate table name (fate libc data) (size - elementPlace size len) with
        | refused =>
            rw [inner] at ending
            cases ending
        | overrun =>
            rw [inner] at ending
            cases ending
        | taken inside =>
            rw [inner] at ending
            obtain ⟨least, most⟩ := elementFate_le (fate_le libc data text rendered) inner
            obtain ⟨least', most'⟩ := elementsFate_le libc table rest later others size _ bytes ending
            refine ⟨by omega, fun all => ?_⟩
            have separated := most' (by omega)
            exact ⟨⟨most (by omega), separated.1⟩, fun _ => @elementPlace_comma size len (by omega)⟩

end

end Count

/-! ## Exact or refused -/

section Exact
variable {libc : Libc} {size : Int} {call : Int × Writes} {ending : Fate} {text : Option Bytes}
  {separated : Prop}

/-- Between a refusal and a whole text there are texts with something missing. -/
theorem exactOrRefused_iff (follows : Follows size call ending)
    (count : ∀ bytes whole, ending = .taken bytes → text = some whole →
      bytes ≤ whole.length ∧ (bytes = whole.length → separated))
    (fits : ∀ whole, separated → text = some whole → (whole.length : Int) < size →
      call = ((whole.length : Int), puts untouched 0 (whole ++ [0]))) :
    ExactOrRefused size text call ↔
      (separated ∧ ∃ whole, text = some whole ∧ (whole.length : Int) < size) ∨ ending = .refused := by
  constructor
  · rintro ⟨inside, result⟩
    cases ending with
    | refused => exact .inr rfl
    | overrun => exact (follows inside).elim
    | taken bytes =>
        obtain ⟨length, -⟩ := follows
        rcases result with refused | ⟨whole, rendered, all, fit, -⟩
        · omega
        · have complete := (count bytes whole rfl rendered).2 (by omega)
          exact .inl ⟨complete, whole, rendered, by omega⟩
  · rintro (⟨complete, whole, rendered, fit⟩ | rfl)
    · have dumped := fits whole complete rendered fit
      rw [dumped]
      exact ⟨within_text within_untouched (by omega) (Int.zero_add size) fit,
        .inr ⟨whole, rendered, rfl, fit, holdsText_puts⟩⟩
    · exact ⟨follows.2, .inl follows.1⟩

theorem namedFate_refused {name : Option CString} {fate : Int → Fate} :
    namedFate name fate size = .refused ↔ size ≤ cInt (nameText name).length := by
  unfold namedFate
  simp only []
  constructor
  · intro refused
    by_contra fits
    rw [if_neg fits] at refused
    split at refused
    · cases refused
    · split at refused
      · cases refused
      · cases refused
      · cases refused
  · intro long
    exact if_pos long

/-- A table with a short and a long number. -/
def twoNumbers : Data := .collection true
  [(some ⟨cstr "a", by decide⟩, .datum (.int 1)), (some ⟨cstr "b", by decide⟩, .datum (.int 22222))]

end Exact

end Mopher.Dump
