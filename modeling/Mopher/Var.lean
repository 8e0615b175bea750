import Mathlib

/-!
# Values of `var.h`

A `var_t` is a type tag and a data pointer that may be `NULL`.  `Value` is what
such an object holds, read through all its pointers: `nil t` is an object of
type `t` whose `v_data` is `NULL`, a list holds its items in order, and an item
may itself be a `NULL` pointer because `exp_eval_list` appends what a failed
evaluation returned.
-/

set_option autoImplicit false

namespace Mopher

/-- A C string without its terminating NUL, or a block of raw bytes. -/
abbrev Bytes := List UInt8

def cstr (text : String) : Bytes :=
  text.toList.map fun c => UInt8.ofNat c.toNat

/-- `var_type_t`, in the order that type casting relies on.  `other` is a number
outside the enumeration, which `cast` can put into the type of a null value. -/
inductive VarType where
  | null
  | table
  | list
  | addr
  | int
  | float
  | pointer
  | string
  | blob
  | other (code : Nat)
deriving Repr, DecidableEq

def VarType.rank : VarType → Nat
  | .null => 0
  | .table => 1
  | .list => 2
  | .addr => 3
  | .int => 4
  | .float => 5
  | .pointer => 6
  | .string => 7
  | .blob => 8
  | .other code => code

/-- The 16 bytes of `s6_addr`. -/
structure In6Addr where
  bytes : List UInt8
  size : bytes.length = 16
deriving Repr, DecidableEq

/-- `struct sockaddr_storage` as far as the program reads it. -/
inductive Addr where
  | inet (address : BitVec 32)
  | inet6 (address : In6Addr)
  | other (family : Nat)
deriving Repr, DecidableEq

/-- Data that is not a list.  `VAR_FLOAT_T` is kept as its 64-bit pattern, and
of a table only the number of its records is ever read. -/
inductive Scalar where
  | table (records : Nat)
  | addr (address : Addr)
  | int (number : Int)
  | float (pattern : UInt64)
  | pointer (address : Nat)
  | string (text : Bytes)
  | blob (data : Bytes)
deriving Repr, DecidableEq

inductive Value where
  | nil (type : VarType)
  | scalar (data : Scalar)
  | list (items : List (Option Value))

def Scalar.type : Scalar → VarType
  | .table _ => .table
  | .addr _ => .addr
  | .int _ => .int
  | .float _ => .float
  | .pointer _ => .pointer
  | .string _ => .string
  | .blob _ => .blob

def Value.type : Value → VarType
  | .nil t => t
  | .scalar s => s.type
  | .list _ => .list

def Value.isNull : Value → Bool
  | .nil _ => true
  | .scalar _ => false
  | .list _ => false

@[simp] theorem Value.type_nil (t : VarType) : (Value.nil t).type = t := rfl

@[simp] theorem Value.type_scalar (s : Scalar) : (Value.scalar s).type = s.type := rfl

@[simp] theorem Value.type_list (items : List (Option Value)) : (Value.list items).type = .list := rfl

@[simp] theorem Value.isNull_nil (t : VarType) : (Value.nil t).isNull = true := rfl

@[simp] theorem Value.isNull_scalar (s : Scalar) : (Value.scalar s).isNull = false := rfl

@[simp] theorem Value.isNull_list (items : List (Option Value)) : (Value.list items).isNull = false :=
  rfl

abbrev Value.int (number : Int) : Value := .scalar (.int number)

abbrev Value.string (text : Bytes) : Value := .scalar (.string text)

end Mopher
