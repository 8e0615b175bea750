import Mopher.Var

/-!
# Operations on values

Model of the part of `var.c`, `blob.c` and `util.c` that expressions use.  Where
the C code follows a data pointer that is `NULL` the model stops with
`nullRead`; where an integer division traps it stops with `trap`.
-/

set_option autoImplicit false

namespace Mopher

inductive Fault where
  | nullRead
  | trap
deriving Repr, DecidableEq

inductive MathOp where
  | plus
  | minus
  | times
  | div
  | mod
deriving Repr, DecidableEq

/-- Libraries that expressions call: arithmetic on `double`, address formatting,
the numbers that `strcmp` and `memcmp` return, `regcomp` with `regexec`, the
base64 codec and `rand_r`, which answers with the next seed, too. -/
structure Libc where
  floatLess : UInt64 → UInt64 → Bool
  floatIsZero : UInt64 → Bool
  floatMath : MathOp → UInt64 → UInt64 → UInt64
  floatOfInt : Int → UInt64
  floatToInt : UInt64 → Int
  strtof : Bytes → UInt64
  floatText : UInt64 → Bytes
  pointerText : Nat → Bytes
  tableText : Nat → Bytes
  inetNtop : Addr → Option Bytes
  sockaddrBytes : Addr → Bytes
  strcmp : Bytes → Bytes → Int
  memcmp : Bytes → Bytes → Int
  regex : Bool → Bytes → Bytes → Option Bool
  base64Encode : Bytes → Bytes
  base64Decode : Bytes → Option Bytes
  randR : Nat → Int × Nat

/-! ## Strings and addresses -/

def isUpper (c : UInt8) : Bool := 65 ≤ c && c ≤ 90

def toLower (c : UInt8) : UInt8 := if isUpper c then c + 32 else c

/-- `util_tolower` on the text it changes in place. -/
def utilTolower (text : Bytes) : Bytes := text.map toLower

def isSpace (c : UInt8) : Bool := c == 32 || (9 ≤ c && c ≤ 13)

def isDigit (c : UInt8) : Bool := 48 ≤ c && c ≤ 57

def longMin : Int := -2 ^ 63

def longMax : Int := 2 ^ 63 - 1

/-- `strtol` in base 10, and whether it sets `errno`. -/
def strtol (text : Bytes) : Int × Bool :=
  let text := text.dropWhile isSpace
  let (negative, digits) : Bool × Bytes :=
    match text with
    | 45 :: rest => (true, rest)
    | 43 :: rest => (false, rest)
    | _ => (false, text)
  let magnitude : Nat :=
    (digits.takeWhile isDigit).foldl (fun n digit => 10 * n + (digit.toNat - 48)) 0
  if negative then
    if -(magnitude : Int) < longMin then (longMin, true) else (-(magnitude : Int), false)
  else
    if (magnitude : Int) > longMax then (longMax, true) else ((magnitude : Int), false)

/-- `strcmp`, reduced to its sign. -/
def strcmpSign : Bytes → Bytes → Int
  | [], [] => 0
  | [], _ :: _ => -1
  | _ :: _, [] => 1
  | a :: left, b :: right => if a < b then -1 else if b < a then 1 else strcmpSign left right

/-- `util_addrtoint`: an unsigned 32-bit address is returned as an `int`. -/
def utilAddrtoint : Addr → Int
  | .inet address => address.toInt
  | .inet6 _ => -1
  | .other _ => -1

def Addr.family : Addr → Nat
  | .inet _ => 2
  | .inet6 _ => 10
  | .other family => family

/-- `util_addrcmp`; `none` is a null pointer. -/
def utilAddrcmp : Option Addr → Option Addr → Int
  | none, none => 0
  | none, some _ => -1
  | some _, none => 1
  | some a, some b =>
      if a.family < b.family then -1
      else if b.family < a.family then 1
      else
        match a, b with
        | .inet x, .inet y => if x < y then -1 else if y < x then 1 else 0
        | .inet6 x, .inet6 y => strcmpSign x.bytes y.bytes
        | _, _ => 0

/-- The loop of `util_addr_prefix` over the bytes of an IPv6 address, from the
last one on. -/
def clearBits : Int → List UInt8 → List UInt8
  | _, [] => []
  | bits, byte :: rest =>
      if bits ≤ 0 then byte :: rest
      else
        (if 8 < bits then 0 else UInt8.ofNat (byte.toNat >>> bits.toNat <<< bits.toNat)) ::
          clearBits (bits - 8) rest

theorem length_clearBits (bytes : List UInt8) : ∀ bits : Int,
    (clearBits bits bytes).length = bytes.length := by
  induction bytes with
  | nil => intro bits; rfl
  | cons byte rest ih =>
      intro bits
      unfold clearBits
      split
      · rfl
      · simp only [List.length_cons, ih]

/-- `util_addr_prefix` on the address it changes in place.  The prefix length is
an `int`: a longer number has lost its upper half.  The mask of an IPv4 address
is made by shifting an `int`, of which the machine takes the count modulo 32. -/
def utilAddrPrefix (address : Addr) (length : Int) : Addr :=
  let length := Int.bmod length (2 ^ 32)
  match address with
  | .inet a =>
      let bits := min (32 - length) 32
      if bits ≤ 0 then address
      else .inet (a &&& ~~~((1#32 <<< (bits.toNat % 32)) - 1))
  | .inet6 a =>
      let bits := min (128 - length) 128
      .inet6 ⟨(clearBits bits a.bytes.reverse).reverse, by
        rw [List.length_reverse, length_clearBits, List.length_reverse, a.size]⟩
  | .other family => .other family

/-- `util_strmail` with a buffer of `size` bytes. -/
def utilStrmail (size : Nat) (source : Bytes) : Option Bytes :=
  match source.dropWhile (· != 60) with
  | [] => none
  | _ :: rest =>
      if 62 ∈ rest then
        let text := rest.takeWhile (· != 62)
        if size ≤ text.length then none else some text
      else none

/-! ## `var_true`, `var_copy_data` and `var_data_size` -/

section Values
variable (libc : Libc)

def zeroAddr : Addr → Addr
  | .inet _ => .inet 0
  | .inet6 _ => .inet6 ⟨List.replicate 16 0, rfl⟩
  | .other family => .other family

def varTrue : Value → Bool
  | .nil _ => false
  | .list items => !items.isEmpty
  | .scalar data =>
      match data with
      | .int n => n != 0
      | .float p => !libc.floatIsZero p
      | .string s => s != cstr "0" && !s.isEmpty
      | .addr a => utilAddrcmp (some a) (some (zeroAddr a)) != 0
      | .table records => records != 0
      -- the size that a blob starts with counts itself
      | .blob _ => true
      | .pointer _ => true

mutual

/-- `var_create` with `VF_COPY`; `none` if some part cannot be copied. -/
def varCopy : Value → Option Value
  | .nil t => some (.nil t)
  | .list items => (varCopyItems items).map .list
  | .scalar data =>
      match data with
      | .pointer _ => none
      | _ => some (.scalar data)

/-- The loop of `var_copy_list_or_table`, which ends at a `NULL` item. -/
def varCopyItems : List (Option Value) → Option (List (Option Value))
  | [] => some []
  | none :: _ => some []
  | some item :: rest =>
      match varCopy item, varCopyItems rest with
      | some copy, some copies => some (some copy :: copies)
      | _, _ => none

end

def varDataSize : Value → Int
  | .scalar (.string s) => s.length + 1
  | .scalar (.int _) => 8
  | .scalar (.float _) => 8
  | .scalar (.addr _) => 128
  | .scalar (.blob b) => b.length + 8
  | _ => 0

def varTypeString : VarType → Bytes
  | .int => cstr "INT"
  | .float => cstr "FLOAT"
  | .string => cstr "STRING"
  | .addr => cstr "ADDR"
  | .list => cstr "LIST"
  | .table => cstr "TABLE"
  | .pointer => cstr "POINTER"
  | .blob => cstr "BLOB"
  | .null => cstr "!ERROR!"
  | .other _ => cstr "!ERROR!"

/-! ## `var_dump_data` -/

def intText (n : Int) : Bytes := cstr (toString n)

/-- `none` is the return value -1 of `var_dump_data`. -/
def fitting (size : Nat) (text : Bytes) : Option Bytes :=
  if size ≤ text.length then none else some text

mutual

/-- `var_dump_data` with `size` bytes left in the buffer.  `NULL` data is
written without a look at what is left. -/
def varDumpData (size : Nat) : Value → Option Bytes
  | .nil _ => some (cstr "null")
  | .list items =>
      match varDumpItems size items (cstr "(") with
      | none => none
      | some text => fitting size (if text.length + 1 < size then text ++ cstr ")" else text)
  | .scalar data =>
      match data with
      | .int n => fitting size (intText n)
      | .float p => fitting size (libc.floatText p)
      | .string s => fitting size s
      | .addr a => (libc.inetNtop a).bind (fitting size)
      | .blob b => fitting size (libc.base64Encode b)
      | .table records => fitting size (libc.tableText records)
      | .pointer p => fitting size (libc.pointerText p)

/-- The loop of `var_dump_list_or_table` over the items of a list. -/
def varDumpItems (size : Nat) : List (Option Value) → Bytes → Option Bytes
  | [], text => some text
  | none :: _, text => some text
  | some item :: rest, text =>
      if size ≤ text.length then some text
      else
        let text := if 1 < text.length && text.length + 1 < size then text ++ cstr "," else text
        match varDumpData (size - text.length) item with
        | none => none
        | some more => varDumpItems size rest (text ++ more)

end

/-! ## Casts -/

def varStringBufferLen : Nat := 1024

def littleEndian (count n : Nat) : Bytes :=
  (List.range count).map fun i => UInt8.ofNat (n >>> (8 * i))

def varAsInt : Value → Option Value
  | .scalar (.float p) => some (.int (libc.floatToInt p))
  | .scalar (.string s) =>
      let (i, errno) := strtol s
      some (.int (if errno && s != cstr "0" then s.length else i))
  | .scalar (.addr a) => if utilAddrtoint a = -1 then none else some (.int (utilAddrtoint a))
  | _ => none

def varAsFloat : Value → Option Value
  | .scalar (.int n) => some (.scalar (.float (libc.floatOfInt n)))
  | .scalar (.string s) => some (.scalar (.float (libc.strtof s)))
  | _ => none

def varAsString (v : Value) : Option Value :=
  (varDumpData libc varStringBufferLen v).map .string

def varAsBlob : Value → Option Value
  | .scalar (.int n) => some (.scalar (.blob (littleEndian 8 (n % 2 ^ 64).toNat)))
  | .scalar (.float p) => some (.scalar (.blob (littleEndian 8 p.toNat)))
  | .scalar (.string s) => some (.scalar (.blob (s ++ [0])))
  | .scalar (.addr a) => some (.scalar (.blob (libc.sockaddrBytes a)))
  | _ => none

/-- `var_cast_copy`; `none` is a null pointer. -/
def varCastCopy (type : VarType) (v : Value) : Option Value :=
  if type = v.type then varCopy v
  else if v.isNull then some (.nil type)
  else
    match type with
    | .int => varAsInt libc v
    | .float => varAsFloat libc v
    | .string => varAsString libc v
    | .blob => varAsBlob libc v
    | _ => none

/-- `var_intval`; a cast that fails counts as 0. -/
def varIntval (v : Value) : Except Fault Int :=
  if v.type = .int then
    match v with
    | .scalar (.int n) => .ok n
    | _ => .error .nullRead
  else
    match varCastCopy libc .int v with
    | none => .ok 0
    | some (.scalar (.int n)) => .ok n
    | some _ => .error .nullRead

/-! ## Comparison -/

def maxType (left right : Value) : VarType :=
  if right.type.rank < left.type.rank then left.type else right.type

def Value.addr? : Value → Option Addr
  | .scalar (.addr a) => some a
  | _ => none

/-- The `switch` of `var_compare`, with both sides of one type; `ok none` is the
return value -1. -/
def compareData (type : VarType) (left right : Value) : Except Fault (Option Int) :=
  match type, left, right with
  | .int, .scalar (.int l), .scalar (.int r) =>
      .ok (some (if l < r then -1 else if r < l then 1 else 0))
  | .float, .scalar (.float l), .scalar (.float r) =>
      .ok (some (if libc.floatLess l r then -1 else if libc.floatLess r l then 1 else 0))
  | .string, .scalar (.string l), .scalar (.string r) => .ok (some (strcmpSign l r))
  | .blob, .scalar (.blob l), .scalar (.blob r) =>
      -- the sign of memcmp is not reduced to -1 or 1
      .ok (some (if l.length < r.length then -1 else if r.length < l.length then 1
        else libc.memcmp l r))
  | .addr, l, r => .ok (some (utilAddrcmp l.addr? r.addr?))
  | .int, _, _ => .error .nullRead
  | .float, _, _ => .error .nullRead
  | .string, _, _ => .error .nullRead
  | .blob, _, _ => .error .nullRead
  | _, _, _ => .ok none

/-- `var_compare`: the side of the smaller type is cast to the larger one. -/
def varCompare (left right : Value) : Except Fault (Option Int) :=
  let type := maxType left right
  let left := if left.type = type then some left else varCastCopy libc type left
  let right := if right.type = type then some right else varCastCopy libc type right
  match left, right with
  | some l, some r => compareData libc type l r
  | _, _ => .ok none

end Values

end Mopher
