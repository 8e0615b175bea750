import Mopher.Lib.CBuffer
import Mopher.Var

/-!
# Addresses of the envelope

Model of `util_strmail` and `util_strdomain` with the buffers that they fill.  Lengths
are kept in an `int`.  `util_strdomain` lets a domain pass that is two bytes too long
for the buffer.
-/

set_option autoImplicit false

namespace Mopher

open CBuffer

def lessThan : UInt8 := 60

def greaterThan : UInt8 := 62

def atSign : UInt8 := 64

/-- `util_strmail`: what is returned, and what is written to the buffer. -/
def utilStrmailInto (size : Int) (src : Option Bytes) : Int × Writes :=
  match src with
  | none => (-1, untouched)
  | some src =>
      match strchr lessThan src with
      | none => (-1, untouched)
      | some start =>
          match strchr greaterThan (src.drop start) with
          | none => (-1, untouched)
          | some distance =>
              let len := cInt (distance - 1)
              if size ≤ len then (-1, untouched)
              else
                let buffer :=
                  if 0 < len then puts untouched 0 (strncpy (src.drop (start + 1)) len.toNat)
                  else untouched
                (len, put buffer len 0)

/-- `util_strdomain`.  The count for `strncpy` is a `size_t`. -/
def utilStrdomainInto (size : Int) (src : Option Bytes) : Int × Writes :=
  match src with
  | none => (-1, untouched)
  | some src =>
      match strrchr atSign src with
      | none => if size ≠ 0 then (0, put untouched 0 0) else (-1, untouched)
      | some place =>
          let start := src.drop (place + 1)
          let len := cInt start.length
          if cInt (size + 1) < len then (-1, untouched)
          else (len, puts untouched 0 (strncpy start (cInt (len + 1) % 2 ^ 64).toNat))

/-! ## What the functions are for -/

/-- The address is between the first `<` and the next `>`. -/
def AddressOf (src address : Bytes) : Prop :=
  ∃ front back, src = front ++ lessThan :: address ++ greaterThan :: back ∧
    lessThan ∉ front ∧ greaterThan ∉ address

/-- The domain is behind the last `@`. -/
def BehindAt (src domain : Bytes) : Prop :=
  ∃ front, src = front ++ atSign :: domain ∧ atSign ∉ domain

/-- The domain of a text without `@` is empty. -/
def DomainOf (src domain : Bytes) : Prop := BehindAt src domain ∨ (atSign ∉ src ∧ domain = [])

/-- A text is stored if there is one and the buffer has room for it, and nothing is
written outside of the buffer. -/
structure StoresExact (size : Int) (call : Int × Writes) (text : Bytes → Prop) : Prop where
  within : Within call.2 size
  stored : ∀ t, text t → (t.length : Int) < size → call.1 = t.length ∧ HoldsText call.2 t
  refused : (∀ t, text t → size ≤ t.length) → call.1 = -1

/-- Both functions on one text, and one after the other. -/
structure EnvelopeExact (mailSize domainSize : Int) (src : Bytes) : Prop where
  mail : StoresExact mailSize (utilStrmailInto mailSize (some src)) (AddressOf src)
  domain : StoresExact domainSize (utilStrdomainInto domainSize (some src)) (DomainOf src)
  suffix : ∀ address, HoldsText (utilStrmailInto mailSize (some src)).2 address → 0 ∉ address →
    (utilStrmailInto mailSize (some src)).1 ≠ -1 →
    (utilStrdomainInto domainSize (some address)).1 ≠ -1 →
    ∃ domain, DomainOf address domain ∧
      HoldsText (utilStrdomainInto domainSize (some address)).2 domain

/-- Where `util_strdomain` returns -1 for a domain: its length is above `size + 1`,
both as `int`s, or the length itself is -1 as an `int`. -/
def DomainRefused (size : Int) (domain : Bytes) : Prop :=
  cInt (size + 1) < cInt domain.length ∨ cInt domain.length = -1

/-- A domain that is too long has a length that is refused, and one that fits has a size
with a successor to compare it with. -/
def DomainMeasured (size : Int) (domain : Bytes) : Prop :=
  if size ≤ domain.length then DomainRefused size domain else size + 1 < 2 ^ 31

/-! ## Texts that are refused or copied -/

section Exact
variable {size : Int} {text : Bytes → Prop} {t : Bytes}

theorem storesExact_refused (only : ∀ other, text other → other = t) (long : size ≤ t.length) :
    StoresExact size (-1, untouched) text := by
  refine ⟨within_untouched, ?_, fun _ => rfl⟩
  intro other among short
  rw [only other among] at short
  omega

theorem storesExact_copied (only : ∀ other, text other → other = t) (there : text t)
    (fits : (t.length : Int) < size) :
    StoresExact size ((t.length : Int), puts untouched 0 (t ++ [0])) text := by
  refine ⟨within_untouched.puts (le_refl 0) ?_, ?_, ?_⟩
  · rw [List.length_append, List.length_singleton]
    omega
  · intro other among short
    rw [only other among]
    exact ⟨rfl, holdsText_puts⟩
  · intro refused
    have long := refused t there
    omega

end Exact

/-! ## The address between the brackets -/

section Mail
variable {size : Int} {src address : Bytes}

theorem utilStrmailInto_address (between : AddressOf src address) :
    utilStrmailInto size (some src) =
      if size ≤ cInt address.length then (-1, untouched)
      else
        (cInt address.length,
          put (if 0 < cInt address.length then
              puts untouched 0 (address.take (cInt address.length).toNat)
            else untouched) (cInt address.length) 0) := by
  obtain ⟨front, back, rfl, noStart, noEnd⟩ := between
  have start : strchr lessThan (front ++ lessThan :: address ++ greaterThan :: back) =
      some front.length := by
    rw [List.append_assoc, List.cons_append]
    exact strchr_append noStart
  have rest : (front ++ lessThan :: address ++ greaterThan :: back).drop front.length =
      (lessThan :: address) ++ greaterThan :: back := by
    rw [List.append_assoc, List.drop_left]
  have finish : strchr greaterThan ((lessThan :: address) ++ greaterThan :: back) =
      some (address.length + 1) := by
    refine strchr_append ?_
    simpa [lessThan, greaterThan] using noEnd
  have text : (front ++ lessThan :: address ++ greaterThan :: back).drop (front.length + 1) =
      address ++ greaterThan :: back := by
    rw [← List.drop_drop, rest]
    rfl
  have length : cInt (((address.length + 1 : Nat) : Int) - 1) = cInt address.length := by
    congr 1
    push_cast
    omega
  have short : (cInt address.length).toNat ≤ address.length := by
    have le := cInt_le (n := address.length) (by omega)
    omega
  unfold utilStrmailInto
  simp only [start, rest, finish, text, length]
  rw [strncpy_of_le (by rw [List.length_append]; omega), List.take_append_of_le_length short]

theorem utilStrmailInto_none (nothing : ∀ address, ¬ AddressOf src address) :
    utilStrmailInto size (some src) = (-1, untouched) := by
  unfold utilStrmailInto
  simp only []
  cases found : strchr lessThan src with
  | none => rfl
  | some start =>
      have member : lessThan ∈ src := by
        by_contra absent
        rw [strchr_eq_none.mpr absent] at found
        cases found
      obtain ⟨front, rest, rfl, noStart⟩ := List.eq_append_cons_of_mem member
      obtain rfl : front.length = start := Option.some.inj ((strchr_append noStart).symm.trans found)
      have noEnd : greaterThan ∉ rest := by
        intro present
        obtain ⟨address, back, rfl, noEnd⟩ := List.eq_append_cons_of_mem present
        exact nothing address ⟨front, back, by simp, noStart, noEnd⟩
      have absent : greaterThan ∉ lessThan :: rest := by
        simpa [lessThan, greaterThan] using noEnd
      simp only [List.drop_left, strchr_eq_none.mpr absent]

theorem addressOf_unique {other : Bytes} (first : AddressOf src address)
    (second : AddressOf src other) : other = address := by
  obtain ⟨front, back, rfl, noStart, noEnd⟩ := first
  obtain ⟨front', back', same, noStart', noEnd'⟩ := second
  simp only [List.append_assoc, List.cons_append] at same
  obtain ⟨rfl, rest⟩ := append_cons_inj same noStart noStart'
  obtain ⟨rfl, -⟩ := append_cons_inj rest noEnd noEnd'
  rfl

theorem utilStrmailInto_copied (between : AddressOf src address) (fits : (address.length : Int) < size)
    (small : size < 2 ^ 31) :
    utilStrmailInto size (some src) =
      ((address.length : Int), puts untouched 0 (address ++ [0])) := by
  have length : cInt address.length = address.length := cInt_of_bounds (by omega) (by omega)
  have copied : put (if 0 < (address.length : Int) then
        puts untouched 0 (address.take (address.length : Int).toNat) else untouched)
      (address.length : Int) 0 = puts untouched 0 (address ++ [0]) := by
    rw [puts_append, Int.toNat_natCast, List.take_length, Int.zero_add]
    by_cases empty : address = []
    · subst empty
      rfl
    · rw [if_pos (by exact_mod_cast List.length_pos_iff.mpr empty)]
      rfl
  rw [utilStrmailInto_address between, length, if_neg (by omega), copied]

/-- The address is stored or refused as it should be, unless its length loses its
upper half in an `int` and then looks as if the buffer had room for it. -/
theorem stores_mail_iff (small : size < 2 ^ 31) :
    StoresExact size (utilStrmailInto size (some src)) (AddressOf src) ↔
      ∀ address, AddressOf src address → size ≤ address.length → size ≤ cInt address.length := by
  constructor
  · intro stores address between long
    have refused := stores.refused fun other otherBetween => by
      rw [addressOf_unique between otherBetween]
      exact long
    by_contra passes
    have within := stores.within
    rw [utilStrmailInto_address between, if_neg passes] at refused within
    simp only [] at refused within
    -- the NUL is written in front of the buffer
    have place := within.of_put.1
    omega
  · intro caught
    by_cases some' : ∃ address, AddressOf src address
    · obtain ⟨address, between⟩ := some'
      have only (other : Bytes) (otherBetween : AddressOf src other) : other = address :=
        addressOf_unique between otherBetween
      by_cases long : size ≤ address.length
      · rw [utilStrmailInto_address between, if_pos (caught address between long)]
        exact storesExact_refused only long
      · rw [utilStrmailInto_copied between (by omega) small]
        exact storesExact_copied only between (by omega)
    · have nothing := not_exists.mp some'
      rw [utilStrmailInto_none nothing]
      exact ⟨within_untouched, fun t between => (nothing t between).elim, fun _ => rfl⟩

end Mail

/-! ## The domain behind the last at sign -/

section Domain
variable {size : Int} {src domain : Bytes}

theorem utilStrdomainInto_behind (behind : BehindAt src domain) :
    utilStrdomainInto size (some src) =
      if cInt (size + 1) < cInt domain.length then (-1, untouched)
      else
        (cInt domain.length,
          puts untouched 0 (strncpy domain (cInt (cInt domain.length + 1) % 2 ^ 64).toNat)) := by
  obtain ⟨front, rfl, absent⟩ := behind
  have rest : (front ++ atSign :: domain).drop (front.length + 1) = domain := by
    rw [← List.drop_drop, List.drop_left]
    rfl
  unfold utilStrdomainInto
  simp only [strrchr_append absent, rest]

theorem utilStrdomainInto_absent (absent : atSign ∉ src) (positive : 0 < size) :
    utilStrdomainInto size (some src) = (0, put untouched 0 0) := by
  unfold utilStrdomainInto
  simp only [strrchr_eq_none.mpr absent]
  rw [if_pos (by omega)]

theorem behindAt_unique {other : Bytes} (first : BehindAt src domain) (second : BehindAt src other) :
    other = domain := by
  obtain ⟨front, rfl, absent⟩ := first
  obtain ⟨front', same, absent'⟩ := second
  have mirrored := congrArg List.reverse same
  simp only [List.reverse_append, List.reverse_cons, List.append_assoc, List.singleton_append]
    at mirrored
  have backs := (append_cons_inj mirrored (by simpa using absent) (by simpa using absent')).1
  exact (List.reverse_injective backs).symm

/-- Where the length of the domain is as it should be, the domain is written with its
NUL. -/
theorem utilStrdomainInto_copied (behind : BehindAt src domain)
    (passes : ¬ cInt (size + 1) < cInt domain.length) (short : (domain.length : Int) + 1 < 2 ^ 31) :
    utilStrdomainInto size (some src) = ((domain.length : Int), puts untouched 0 (domain ++ [0])) := by
  have length : cInt domain.length = domain.length := cInt_of_bounds (by omega) (by omega)
  have count : (cInt ((domain.length : Int) + 1) % 2 ^ 64).toNat = domain.length + 1 := by
    rw [cInt_of_bounds (by omega) (by omega)]
    omega
  rw [utilStrdomainInto_behind behind, if_neg passes, length, count, strncpy_succ]

/-- The domain is stored or refused as it should be exactly when it is refused for
being too long. -/
theorem stores_domain_iff (positive : 0 < size) (small : size < 2 ^ 31) :
    StoresExact size (utilStrdomainInto size (some src)) (DomainOf src) ↔
      ∀ domain, BehindAt src domain → (DomainRefused size domain ↔ size ≤ domain.length) := by
  constructor
  · intro stores domain behind
    constructor
    · intro refused
      by_contra short
      -- a domain that fits is not answered with -1
      have answer := (stores.stored domain (.inl behind) (by omega)).1
      have length : cInt domain.length = domain.length := cInt_of_bounds (by omega) (by omega)
      rcases refused with caught | negative
      · rw [utilStrdomainInto_behind behind, if_pos caught] at answer
        simp only [] at answer
        omega
      · omega
    · intro long
      have refused := stores.refused fun other otherDomain => by
        rcases otherDomain with otherBehind | ⟨absent, -⟩
        · rw [behindAt_unique behind otherBehind]
          exact long
        · obtain ⟨front, rfl, -⟩ := behind
          simp at absent
      by_cases caught : cInt (size + 1) < cInt domain.length
      · exact .inl caught
      · rw [utilStrdomainInto_behind behind, if_neg caught] at refused
        simp only [] at refused
        exact .inr refused
  · intro exact'
    by_cases member : atSign ∈ src
    · obtain ⟨front, domain, split, absent⟩ := exists_last member
      have behind : BehindAt src domain := ⟨front, split, absent⟩
      have refusedIff := exact' domain behind
      have only (other : Bytes) (otherDomain : DomainOf src other) : other = domain := by
        rcases otherDomain with otherBehind | ⟨absent', -⟩
        · exact behindAt_unique behind otherBehind
        · exact (absent' member).elim
      by_cases long : size ≤ domain.length
      · have nothing : utilStrdomainInto size (some src) = (-1, untouched) := by
          rw [utilStrdomainInto_behind behind]
          split
          · rfl
          · next passes =>
              have negative : cInt domain.length = -1 := (refusedIff.mpr long).resolve_left passes
              have zero : cInt (-1 + 1) = 0 := rfl
              rw [negative, zero]
              rfl
        rw [nothing]
        exact storesExact_refused only long
      · have passes : ¬ cInt (size + 1) < cInt domain.length := fun caught =>
          long (refusedIff.mp (.inl caught))
        rw [utilStrdomainInto_copied behind passes (by omega)]
        exact storesExact_copied only (.inl behind) (by omega)
    · have only (other : Bytes) (otherDomain : DomainOf src other) : other = [] := by
        rcases otherDomain with ⟨front, rfl, -⟩ | ⟨-, empty⟩
        · simp at member
        · exact empty
      rw [utilStrdomainInto_absent member positive]
      exact storesExact_copied only (.inr ⟨member, rfl⟩) positive

end Domain

/-! ## Both functions -/

theorem domain_of_stored {mailSize domainSize : Size} {src : Bytes}
    (mail : StoresExact mailSize.bytes (utilStrmailInto mailSize.bytes (some src)) (AddressOf src))
    {address : Bytes} (holds : HoldsText (utilStrmailInto mailSize.bytes (some src)).2 address)
    (succeeds : (utilStrdomainInto domainSize.bytes (some address)).1 ≠ -1) :
    ∃ domain, DomainOf address domain ∧
      HoldsText (utilStrdomainInto domainSize.bytes (some address)).2 domain := by
  have short := holds.length_lt mail.within
  have mailSmall := mailSize.small
  by_cases member : atSign ∈ address
  · obtain ⟨front, domain, split, absent⟩ := exists_last member
    have behind : BehindAt address domain := ⟨front, split, absent⟩
    have length : (domain.length : Int) < address.length := by
      rw [split]
      simp
      omega
    refine ⟨domain, .inl behind, ?_⟩
    by_cases caught : cInt (domainSize.bytes + 1) < cInt domain.length
    · rw [utilStrdomainInto_behind behind, if_pos caught] at succeeds
      exact (succeeds rfl).elim
    · rw [utilStrdomainInto_copied behind caught (by omega)]
      exact holdsText_puts
  · refine ⟨[], .inr ⟨member, rfl⟩, ?_⟩
    rw [utilStrdomainInto_absent member domainSize.positive]
    exact holdsText_puts

theorem domainMeasured_iff {size : Int} {domain : Bytes} (positive : 0 < size) (small : size < 2 ^ 31) :
    DomainMeasured size domain ↔ (DomainRefused size domain ↔ size ≤ domain.length) := by
  unfold DomainMeasured
  by_cases long : size ≤ domain.length
  · rw [if_pos long, iff_true_right long]
  · have length : cInt domain.length = domain.length := cInt_of_bounds (by omega) (by omega)
    rw [if_neg long, iff_false_right long, DomainRefused, length]
    constructor
    · intro next
      rw [cInt_of_bounds (by omega) next]
      omega
    · intro passes
      by_contra last
      -- the successor of the largest `int` is the smallest
      have wrapped : cInt (size + 1) = -2 ^ 31 := by
        have largest : size + 1 = 2 ^ 31 := by omega
        rw [largest]
        rfl
      omega

/-- The functions do what they are for if and only if a text that is too long for its
buffer is refused for its length as an `int`. -/
theorem envelope_exact_iff (mailSize domainSize : Size) (src : Bytes) :
    EnvelopeExact mailSize.bytes domainSize.bytes src ↔
      (∀ address, AddressOf src address → mailSize.bytes ≤ address.length →
        mailSize.bytes ≤ cInt address.length) ∧
      (∀ domain, BehindAt src domain → DomainMeasured domainSize.bytes domain) := by
  have mailIff := @stores_mail_iff _ src mailSize.small
  have domainIff := @stores_domain_iff _ src domainSize.positive domainSize.small
  simp only [← domainMeasured_iff domainSize.positive domainSize.small] at domainIff
  constructor
  · intro exact'
    exact ⟨mailIff.mp exact'.mail, domainIff.mp exact'.domain⟩
  · rintro ⟨mailCaught, domainCaught⟩
    have mail := mailIff.mpr mailCaught
    exact ⟨mail, domainIff.mpr domainCaught, fun address holds _ _ succeeds =>
      domain_of_stored mail holds succeeds⟩

/-- For lengths that an `int` keeps, only two lengths are not measured as they should be. -/
theorem domainMeasured_iff_of_small {size : Int} {domain : Bytes} (positive : 0 < size)
    (small : size + 1 < 2 ^ 31) (short : (domain.length : Int) < 2 ^ 31) :
    DomainMeasured size domain ↔ (domain.length : Int) ≠ size ∧ (domain.length : Int) ≠ size + 1 := by
  unfold DomainMeasured DomainRefused
  rw [cInt_of_bounds (by omega) small, cInt_of_bounds (by omega) short]
  by_cases long : size ≤ domain.length
  · rw [if_pos long]
    omega
  · rw [if_neg long]
    omega

/-- A domain of four bytes is written to a buffer of four, and its NUL behind it. -/
theorem domain_of_the_size_overflows :
    utilStrdomainInto 4 (some (cstr "a@b.ch")) = (4, puts untouched 0 (cstr "b.ch" ++ [0])) ∧
      (utilStrdomainInto 4 (some (cstr "a@b.ch"))).2 4 = some 0 ∧
      ¬ EnvelopeExact 4 4 (cstr "a@b.ch") := by
  have written : (utilStrdomainInto 4 (some (cstr "a@b.ch"))).2 4 = some 0 := by decide
  have behind : BehindAt (cstr "a@b.ch") (cstr "b.ch") := ⟨cstr "a", by decide, by decide⟩
  refine ⟨utilStrdomainInto_copied behind (by decide) (by decide), written, fun exact' => ?_⟩
  have place := exact'.domain.within 4 (by rw [written]; decide)
  omega

end Mopher
