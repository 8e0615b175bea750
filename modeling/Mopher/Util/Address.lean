import Mopher.Eval.Compare

/-!
# Addresses as numbers

Two functions of `util.c` on addresses.  `util_addr_prefix` keeps the first bits of an
address; of an IPv4 address it makes the mask by shifting an `int`, which the prefix 0
shifts by its whole width.  `util_addrtoint` returns an IPv4 address as an `int`, so the
upper half of the addresses is negative, and the last one is the answer for an error.
-/

set_option autoImplicit false

namespace Mopher

/-! ## Prefixes -/

/-- The counts by which the loop of `util_addr_prefix` shifts. -/
def clearBitsShifts : Int → List UInt8 → List Int
  | _, [] => []
  | bits, _ :: rest =>
      if bits ≤ 0 then []
      else (if 8 < bits then [] else [bits]) ++ clearBitsShifts (bits - 8) rest

/-- The counts by which `util_addr_prefix` shifts an `int`. -/
def utilAddrPrefixShifts (address : Addr) (length : Int) : List Int :=
  let length := Int.bmod length (2 ^ 32)
  match address with
  | .inet _ =>
      let bits := min (32 - length) 32
      if bits ≤ 0 then [] else [bits]
  | .inet6 a => clearBitsShifts (min (128 - length) 128) a.bytes.reverse
  | .other _ => []

def Addr.isInet : Addr → Bool
  | .inet _ => true
  | .inet6 _ => false
  | .other _ => false

/-- How many bits an address has. -/
def Addr.width : Addr → Nat
  | .inet _ => 32
  | .inet6 _ => 128
  | .other _ => 0

/-- A bit of an address, counted from its start. -/
def Addr.bit (address : Addr) (i : Nat) : Bool :=
  match address with
  | .inet a => a.getMsbD i
  | .inet6 a => (a.bytes.getD (i / 8) 0).toNat.testBit (7 - i % 8)
  | .other _ => false

/-- The first bits are kept, the others are cleared, and no shift is as long as an
`int`. -/
structure KeepsPrefix (address : Addr) (length : Nat) : Prop where
  shifts : ∀ count ∈ utilAddrPrefixShifts address length, 0 ≤ count ∧ count < 32
  family : (utilAddrPrefix address length).family = address.family
  bits : ∀ i < address.width,
    (utilAddrPrefix address length).bit i = (decide (i < length) && address.bit i)

/-- Two prefixes, each alone and one after the other. -/
structure PrefixesAgree (address : Addr) (p q : Nat) : Prop where
  first : KeepsPrefix address p
  second : KeepsPrefix address q
  idempotent : utilAddrPrefix (utilAddrPrefix address p) p = utilAddrPrefix address p
  inOrder : utilAddrPrefix (utilAddrPrefix address p) q = utilAddrPrefix address (min p q : Nat)
  reversed : utilAddrPrefix (utilAddrPrefix address q) p = utilAddrPrefix address (min p q : Nat)

/-! ## The mask of an IPv4 address -/

theorem getLsbD_mask {bits : Nat} (small : bits < 32) {i : Nat} (inside : i < 32) :
    (~~~((1#32 <<< bits) - 1)).getLsbD i = decide (bits ≤ i) := by
  have power : 2 ^ bits < 2 ^ 32 := Nat.pow_lt_pow_right (by decide) small
  have positive : 0 < 2 ^ bits := Nat.two_pow_pos bits
  have ones : ((1#32 <<< bits) - 1).toNat = 2 ^ bits - 1 := by
    have one : (1 : BitVec 32).toNat = 1 := rfl
    rw [BitVec.toNat_sub, BitVec.toNat_shiftLeft, one, Nat.shiftLeft_eq]
    have same : (1#32).toNat = 1 := rfl
    rw [same]
    omega
  rw [BitVec.getLsbD_not, BitVec.getLsbD, ones, Nat.testBit_two_pow_sub_one, decide_eq_true inside,
    Bool.true_and, ← decide_not]
  exact decide_eq_decide.mpr Nat.not_lt

theorem bmod_small {length : Nat} (small : length ≤ 128) : Int.bmod length (2 ^ 32) = length := by
  rw [Int.bmod_eq_of_le] <;> omega

theorem utilAddrPrefix_inet {length : Nat} (positive : 0 < length) (fits : length ≤ 32)
    (a : BitVec 32) :
    utilAddrPrefix (.inet a) length =
      if length = 32 then .inet a else .inet (a &&& ~~~((1#32 <<< (32 - length)) - 1)) := by
  unfold utilAddrPrefix
  simp only [bmod_small (show length ≤ 128 by omega)]
  by_cases whole : length = 32
  · rw [if_pos whole, if_pos (by omega)]
  · have bits : (min (32 - (length : Int)) 32).toNat % 32 = 32 - length := by omega
    rw [if_neg whole, if_neg (by omega), bits]

theorem keepsPrefix_inet {length : Nat} (positive : 0 < length) (fits : length ≤ 32)
    (a : BitVec 32) : KeepsPrefix (.inet a) length where
  shifts := by
    intro count member
    unfold utilAddrPrefixShifts at member
    simp only [bmod_small (show length ≤ 128 by omega)] at member
    split at member
    · cases member
    · obtain rfl := List.mem_singleton.mp member
      omega
  family := by
    rw [utilAddrPrefix_inet positive fits]
    split <;> rfl
  bits := by
    intro i inside
    have small : i < 32 := inside
    rw [utilAddrPrefix_inet positive fits]
    split
    · next whole =>
        rw [decide_eq_true (by omega), Bool.true_and]
    · next part =>
        simp only [Addr.bit, BitVec.getMsbD_eq_getLsbD, BitVec.getLsbD_and]
        rw [getLsbD_mask (by omega) (by omega), decide_eq_true small, Bool.true_and, Bool.true_and,
          Bool.and_comm]
        congr 1
        exact decide_eq_decide.mpr (by omega)

/-! ## The bytes of an IPv6 address -/

theorem testBit_clearByte (byte : UInt8) {bits : Int} (positive : 0 < bits) (small : bits ≤ 8)
    {k : Nat} (inside : k < 8) :
    (UInt8.ofNat (byte.toNat >>> bits.toNat <<< bits.toNat)).toNat.testBit k =
      (decide (bits ≤ k) && byte.toNat.testBit k) := by
  rw [UInt8.toNat_ofNat', Nat.testBit_mod_two_pow, decide_eq_true inside, Bool.true_and,
    Nat.testBit_shiftLeft, Nat.testBit_shiftRight]
  by_cases above : bits ≤ k
  · have shifted : bits.toNat + (k - bits.toNat) = k := by omega
    rw [decide_eq_true (show k ≥ bits.toNat by omega), decide_eq_true above, shifted]
  · rw [decide_eq_false (show ¬ k ≥ bits.toNat by omega), decide_eq_false above]
    rfl

/-- A bit of the bytes, counted from the last one, is kept if it is not among the
`bits` last ones. -/
theorem testBit_clearBits (bytes : List UInt8) : ∀ (bits : Int) (j k : Nat), j < bytes.length →
    k < 8 → ((clearBits bits bytes).getD j 0).toNat.testBit k =
      (decide (bits ≤ 8 * j + k) && (bytes.getD j 0).toNat.testBit k) := by
  induction bytes with
  | nil =>
      intro bits j k inside
      simp at inside
  | cons byte rest ih =>
      intro bits j k inside small
      unfold clearBits
      by_cases done : bits ≤ 0
      · rw [if_pos done, decide_eq_true (by omega), Bool.true_and]
      rw [if_neg done]
      cases j with
      | zero =>
          simp only [List.getD_cons_zero]
          by_cases long : 8 < bits
          · rw [if_pos long, decide_eq_false (by omega)]
            simp
          · rw [if_neg long, testBit_clearByte byte (by omega) (by omega) small]
            simp
      | succ j =>
          simp only [List.getD_cons_succ]
          rw [ih (bits - 8) j k (by simpa using inside) small]
          congr 1
          exact decide_eq_decide.mpr (by push_cast; omega)

theorem clearBitsShifts_small (bytes : List UInt8) : ∀ bits : Int,
    ∀ count ∈ clearBitsShifts bits bytes, 0 ≤ count ∧ count < 32 := by
  induction bytes with
  | nil =>
      intro bits count member
      cases member
  | cons byte rest ih =>
      intro bits count member
      unfold clearBitsShifts at member
      split at member
      · cases member
      · rcases List.mem_append.mp member with here | later
        · split at here
          · cases here
          · obtain rfl := List.mem_singleton.mp here
            omega
        · exact ih (bits - 8) count later

theorem getD_reverse (bytes : List UInt8) {j : Nat} (inside : j < bytes.length) :
    bytes.reverse.getD j 0 = bytes.getD (bytes.length - 1 - j) 0 := by
  rw [List.getD_eq_getElem?_getD, List.getD_eq_getElem?_getD, List.getElem?_reverse inside]

theorem keepsPrefix_inet6 {length : Nat} (fits : length ≤ 128) (a : In6Addr) :
    KeepsPrefix (.inet6 a) length where
  shifts := by
    intro count member
    exact clearBitsShifts_small _ _ count member
  family := rfl
  bits := by
    intro i inside
    have small : i < 128 := inside
    have size := a.size
    have mirrored : 15 - (15 - i / 8) = i / 8 := by omega
    unfold utilAddrPrefix
    simp only [bmod_small fits, Addr.bit]
    have cleared : (clearBits (min (128 - (length : Int)) 128) a.bytes.reverse).length = 16 := by
      rw [length_clearBits, List.length_reverse, size]
    rw [getD_reverse _ (by omega), cleared,
      testBit_clearBits _ _ _ _ (by rw [List.length_reverse, size]; omega) (by omega),
      getD_reverse _ (by omega), size, mirrored]
    congr 1
    exact decide_eq_decide.mpr (by omega)

/-! ## Addresses with the same bits -/

theorem uint8_ext_testBit {left right : UInt8}
    (same : ∀ k < 8, left.toNat.testBit k = right.toNat.testBit k) : left = right := by
  apply UInt8.toNat_inj.mp
  apply Nat.eq_of_testBit_eq
  intro k
  by_cases small : k < 8
  · exact same k small
  · have high : 2 ^ 8 ≤ 2 ^ k := Nat.pow_le_pow_right (by decide) (by omega)
    rw [Nat.testBit_lt_two_pow (lt_of_lt_of_le left.toNat_lt high),
      Nat.testBit_lt_two_pow (lt_of_lt_of_le right.toNat_lt high)]

theorem Addr.ext_bits {left right : Addr} (inet : left.isInet = right.isInet)
    (family : left.family = right.family) (width : left.width = right.width)
    (bits : ∀ i < left.width, left.bit i = right.bit i) : left = right := by
  cases left with
  | inet x =>
      cases right with
      | inet y => exact congrArg Addr.inet (BitVec.eq_of_getMsbD_eq bits)
      | inet6 y => cases inet
      | other f => cases inet
  | inet6 x =>
      cases right with
      | inet y => cases inet
      | other f => cases width
      | inet6 y =>
          obtain ⟨x, xSize⟩ := x
          obtain ⟨y, ySize⟩ := y
          have same : x = y := by
            refine List.ext_getElem (xSize.trans ySize.symm) fun j inLeft inRight => ?_
            refine uint8_ext_testBit fun k small => ?_
            have bit := bits (8 * j + (7 - k)) (by simp only [Addr.width]; omega)
            have byte : (8 * j + (7 - k)) / 8 = j := by omega
            have place : 7 - (8 * j + (7 - k)) % 8 = k := by omega
            simp only [Addr.bit, byte, place] at bit
            rwa [List.getD_eq_getElem _ _ inLeft, List.getD_eq_getElem _ _ inRight] at bit
          subst same
          rfl
  | other f =>
      cases right with
      | inet y => cases inet
      | inet6 y => cases width
      | other g => exact congrArg Addr.other family

@[simp] theorem utilAddrPrefix_isInet (a : Addr) (length : Int) :
    (utilAddrPrefix a length).isInet = a.isInet := by
  cases a with
  | inet x =>
      unfold utilAddrPrefix
      simp only []
      split <;> rfl
  | inet6 x => rfl
  | other f => rfl

@[simp] theorem utilAddrPrefix_width (a : Addr) (length : Int) :
    (utilAddrPrefix a length).width = a.width := by
  cases a with
  | inet x =>
      unfold utilAddrPrefix
      simp only []
      split <;> rfl
  | inet6 x => rfl
  | other f => rfl

/-- Where the prefix 0 of an IPv4 address is left out. -/
def Masked (a : Addr) (length : Nat) : Prop := a.isInet = true → 0 < length

theorem keepsPrefix_of_masked {a : Addr} {length : Nat} (fits : length ≤ a.width)
    (masked : Masked a length) : KeepsPrefix a length := by
  cases a with
  | inet x => exact keepsPrefix_inet (masked rfl) fits x
  | inet6 x => exact keepsPrefix_inet6 fits x
  | other f =>
      refine ⟨?_, rfl, ?_⟩
      · intro count member
        cases member
      · intro i inside
        cases inside

/-- One prefix after another is the shorter one. -/
theorem utilAddrPrefix_twice {a : Addr} {p q : Nat} (pFits : p ≤ a.width) (qFits : q ≤ a.width)
    (pMasked : Masked a p) (qMasked : Masked a q) :
    utilAddrPrefix (utilAddrPrefix a p) q = utilAddrPrefix a (min p q : Nat) := by
  have masked : Masked a (min p q) := fun inet => lt_min (pMasked inet) (qMasked inet)
  have keepsP := keepsPrefix_of_masked pFits pMasked
  have keepsQ : KeepsPrefix (utilAddrPrefix a p) q :=
    keepsPrefix_of_masked (by simpa using qFits) fun inet => qMasked (by simpa using inet)
  have keepsMin := keepsPrefix_of_masked (min_le_of_left_le pFits) masked
  refine Addr.ext_bits (by simp) ?_ (by simp) fun i inside => ?_
  · rw [keepsQ.family, keepsP.family, keepsMin.family]
  · have here : i < a.width := by simpa using inside
    rw [keepsQ.bits i (by simpa using here), keepsP.bits i here, keepsMin.bits i here,
      ← Bool.and_assoc, ← Bool.decide_and]
    congr 1
    exact decide_eq_decide.mpr (by omega)

/-- Prefixes work as they should unless one of them is the prefix 0 of an IPv4
address, for which an `int` is shifted by 32. -/
theorem prefixes_agree_iff (a : Addr) (p q : Fin (a.width + 1)) :
    PrefixesAgree a p q ↔ ¬ (a.isInet = true ∧ (p.val = 0 ∨ q.val = 0)) := by
  have pFits : p.val ≤ a.width := Nat.le_of_lt_succ p.isLt
  have qFits : q.val ≤ a.width := Nat.le_of_lt_succ q.isLt
  constructor
  · intro agree ⟨inet, zero⟩
    cases a with
    | inet6 x => cases inet
    | other f => cases inet
    | inet x =>
        -- the only shift of the prefix 0 is by 32
        have overlong (length : Nat) (none' : length = 0) (keeps : KeepsPrefix (.inet x) length) :
            False := by
          subst none'
          have bounds := keeps.shifts 32 (List.mem_singleton.mpr rfl)
          omega
        rcases zero with zero | zero
        · exact overlong p zero agree.first
        · exact overlong q zero agree.second
  · intro bounded
    have pMasked : Masked a p := by
      intro inet
      by_contra none'
      exact bounded ⟨inet, .inl (by omega)⟩
    have qMasked : Masked a q := by
      intro inet
      by_contra none'
      exact bounded ⟨inet, .inr (by omega)⟩
    refine ⟨keepsPrefix_of_masked pFits pMasked, keepsPrefix_of_masked qFits qMasked, ?_, ?_, ?_⟩
    · rw [utilAddrPrefix_twice pFits pFits pMasked pMasked, min_self]
    · exact utilAddrPrefix_twice pFits qFits pMasked qMasked
    · rw [utilAddrPrefix_twice qFits pFits qMasked pMasked, min_comm]

/-- The prefix 0 of an IPv4 address keeps all bits of it. -/
theorem prefix_zero_shifts_by_the_width :
    utilAddrPrefixShifts (.inet 0x7f000001#32) 0 = [32] ∧
      utilAddrPrefix (.inet 0x7f000001#32) 0 = .inet 0x7f000001#32 ∧
      ¬ PrefixesAgree (.inet 0x7f000001#32) 0 0 := by
  refine ⟨by decide, by decide, fun agree => ?_⟩
  have bounds := agree.first.shifts 32 (by decide)
  omega

/-! ## Addresses as integers -/

section Casts
variable (libc : Libc)

/-- Two addresses cast to `VT_INT`: each is its 32 bits as a number, and the numbers
are in the order of the addresses. -/
def OrderKept (a b : BitVec 32) : Prop :=
  ∃ m n : Int,
    varCastCopy libc .int (.scalar (.addr (.inet a))) = some (.int m) ∧
    varCastCopy libc .int (.scalar (.addr (.inet b))) = some (.int n) ∧
    m = a.toNat ∧ n = b.toNat ∧ 0 ≤ m ∧ m < 2 ^ 32 ∧ 0 ≤ n ∧ n < 2 ^ 32 ∧
    (m < n ↔ utilAddrcmp (some (.inet a)) (some (.inet b)) < 0)

end Casts

section Casts
variable {libc : Libc}

/-- The address 255.255.255.255 is not cast; the sign bit counts in every other. -/
theorem varCastCopy_inet (a : BitVec 32) :
    varCastCopy libc .int (.scalar (.addr (.inet a))) =
      if a.toInt = -1 then none else some (.int a.toInt) := rfl

theorem castsTo_iff (a : BitVec 32) :
    varCastCopy libc .int (.scalar (.addr (.inet a))) = some (.int a.toNat) ↔ a.toNat < 2 ^ 31 := by
  have range := a.isLt
  have value := BitVec.toInt_eq_toNat_cond a
  rw [varCastCopy_inet]
  constructor
  · intro cast
    split at cast
    · cases cast
    · have same : a.toInt = a.toNat := by
        injection cast with cast
        injection cast with cast
        injection cast
      split at value
      · omega
      · omega
  · intro small
    rw [if_pos (by omega)] at value
    rw [value, if_neg (by omega)]

theorem utilAddrcmp_inet (a b : BitVec 32) :
    utilAddrcmp (some (.inet a)) (some (.inet b)) < 0 ↔ a.toNat < b.toNat := by
  have order : utilAddrcmp (some (.inet a)) (some (.inet b)) =
      if a < b then -1 else if b < a then 1 else 0 := rfl
  rw [order, ← BitVec.lt_def]
  by_cases less : a < b
  · simp [less]
  · by_cases greater : b < a
    · simp [less, greater]
    · simp [less, greater]

/-- An address is cast to its number if and only if it is in the lower half. -/
theorem order_kept_iff (libc : Libc) (a b : BitVec 32) :
    OrderKept libc a b ↔ a.toNat < 2 ^ 31 ∧ b.toNat < 2 ^ 31 := by
  constructor
  · rintro ⟨m, n, castA, castB, rfl, rfl, -⟩
    exact ⟨(castsTo_iff a).mp castA, (castsTo_iff b).mp castB⟩
  · rintro ⟨smallA, smallB⟩
    have rangeA := a.isLt
    have rangeB := b.isLt
    refine ⟨a.toNat, b.toNat, (castsTo_iff a).mpr smallA, (castsTo_iff b).mpr smallB, rfl, rfl,
      by omega, by omega, by omega, by omega, ?_⟩
    rw [utilAddrcmp_inet]
    exact Int.ofNat_lt

end Casts

/-- The address 255.255.255.255 cannot be cast, and 128.0.0.1 becomes a number below
that of 127.0.0.1. -/
theorem upper_half_is_negative :
    varCastCopy plainLibc .int (.scalar (.addr (.inet 0xffffffff#32))) = none ∧
      varCastCopy plainLibc .int (.scalar (.addr (.inet 0x80000001#32))) =
        some (.int (-2147483647)) ∧
      ¬ OrderKept plainLibc 0x7f000001#32 0x80000001#32 := by
  refine ⟨rfl, rfl, fun kept => ?_⟩
  obtain ⟨m, n, -, cast, -, value, -⟩ := kept
  have negative : some (Value.int (-2147483647)) = some (.int n) := cast
  injection negative with negative
  injection negative with negative
  injection negative with negative
  rw [← negative] at value
  revert value
  decide

end Mopher
