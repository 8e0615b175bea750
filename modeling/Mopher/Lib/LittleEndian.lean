import Mathlib

/-!
# Numbers as bytes, and codes that end themselves

A number in a fixed count of bytes, the lowest first, and a rule for encodings
from which a decoder can read a value without knowing where its bytes end.
-/

set_option autoImplicit false

namespace LittleEndian

/-- The lowest `count` bytes of a number. -/
def encode : Nat → Nat → List UInt8
  | 0, _ => []
  | count + 1, n => UInt8.ofNat n :: encode count (n / 256)

def decode : List UInt8 → Nat
  | [] => 0
  | b :: rest => b.toNat + 256 * decode rest

@[simp] theorem length_encode (count n : Nat) : (encode count n).length = count := by
  induction count generalizing n with
  | zero => rfl
  | succ count ih => simp only [encode, List.length_cons, ih]

theorem decode_encode (count n : Nat) : decode (encode count n) = n % 256 ^ count := by
  induction count generalizing n with
  | zero => simp [encode, decode, Nat.mod_one]
  | succ count ih =>
      have byte : (UInt8.ofNat n).toNat = n % 256 := UInt8.toNat_ofNat'
      simp only [encode, decode, ih, byte]
      rw [pow_succ' 256 count, Nat.mod_mul]

theorem decode_encode_of_lt {count n : Nat} (small : n < 256 ^ count) :
    decode (encode count n) = n := by
  rw [decode_encode, Nat.mod_eq_of_lt small]

end LittleEndian

/-- A value can be read off the front of any list that starts with its code. -/
def SelfDelimiting {α β : Type} (encode : α → List β) (decode : List β → Option α) : Prop :=
  ∀ a rest, decode (encode a ++ rest) = some a

/-- Two lists that start with codes and agree start with the same code. -/
theorem SelfDelimiting.append_inj {α β : Type} {encode : α → List β} {decode : List β → Option α}
    (delimits : SelfDelimiting encode decode) {a b : α} {x y : List β}
    (same : encode a ++ x = encode b ++ y) : a = b ∧ x = y := by
  have values : a = b := by
    have first := delimits a x
    rw [same, delimits b y, Option.some.injEq] at first
    exact first.symm
  subst values
  exact ⟨rfl, List.append_cancel_left same⟩
