import Mopher.Regdom.Idna

/-!
# The origin of a connection

`milter_origin` of `milter.c` names the peer in greylist and counter tuples: by the
registrable domain of its host name, or by its address where the host name is the
address in brackets.  It tells the two apart by a prefix test, and the answer of
`regdom_punycode` for a name without a registrable domain is an empty text.
-/

set_option autoImplicit false

namespace Mopher.Milter

open Regdom (Libidn RegdomHt regdomPunycode strtokR)

/-- `hostname + 1`; behind an empty name stands what memory holds there. -/
def afterFirst (hostname behind : Bytes) : Bytes :=
  match hostname with
  | [] => behind
  | _ :: rest => rest

/-- The condition under which `milter_origin` takes the host name for known. -/
def HostnameKnown (hostname hostaddr behind : Bytes) : Prop :=
  hostaddr ≠ cstr "(null)" ∧ ¬ hostaddr <+: afterFirst hostname behind

instance (hostname hostaddr behind : Bytes) : Decidable (HostnameKnown hostname hostaddr behind) := by
  unfold HostnameKnown
  infer_instance

section Origin
variable (libidn : Libidn) (regdomHt : RegdomHt)

/-- `milter_origin`; `none` is the return value -1, else the return value is the
length of the text. -/
def milterOrigin (size : Nat) (hostname hostaddr behind : Bytes) : Option Bytes :=
  if HostnameKnown hostname hostaddr behind then
    regdomPunycode libidn regdomHt size (some hostname)
  else if hostaddr.length ≥ size then none
  else some hostaddr

/-- The registrable domain of a host name, empty where there is none. -/
def registrableDomain (size : Nat) (hostname : Bytes) : Bytes :=
  (regdomPunycode libidn regdomHt size (some hostname)).getD []

def bracketed (hostaddr : Bytes) : Bytes := cstr "[" ++ hostaddr ++ cstr "]"

/-- The origin is the registrable domain where the host name has one and is not the
address, else the address; and it is not empty. -/
def OriginNamesPeer (size : Nat) (hostname hostaddr origin : Bytes) : Prop :=
  origin =
      (if hostname ≠ bracketed hostaddr ∧ registrableDomain libidn regdomHt size hostname ≠ []
        then registrableDomain libidn regdomHt size hostname else hostaddr) ∧
    (hostaddr ≠ [] → origin ≠ [])

theorem hostname_of_bracketed (hostaddr behind : Bytes) :
    ¬ HostnameKnown (bracketed hostaddr) hostaddr behind := by
  rintro ⟨-, noPrefix⟩
  exact noPrefix ⟨cstr "]", rfl⟩

/-- The origin of a known host name is its registrable domain, empty or not. -/
theorem origin_of_known {size : Nat} {hostname hostaddr behind origin : Bytes}
    (known : HostnameKnown hostname hostaddr behind)
    (written : milterOrigin libidn regdomHt size hostname hostaddr behind = some origin) :
    OriginNamesPeer libidn regdomHt size hostname hostaddr origin ↔
      registrableDomain libidn regdomHt size hostname ≠ [] := by
  rw [milterOrigin, if_pos known] at written
  have domain : registrableDomain libidn regdomHt size hostname = origin := by
    simp [registrableDomain, written]
  have other : hostname ≠ bracketed hostaddr := by
    intro same
    rw [same] at known
    exact hostname_of_bracketed hostaddr behind known
  have address : hostaddr ≠ [] := by
    intro empty
    rw [empty] at known
    exact known.2 List.nil_prefix
  unfold OriginNamesPeer
  rw [domain]
  constructor
  · intro named
    exact named.2 address
  · intro filled
    exact ⟨(if_pos ⟨other, filled⟩).symm, fun _ => filled⟩

/-- The address is the right origin for the address in brackets, for a host name without
a registrable domain, and for one whose domain is the address. -/
theorem address_names_peer_iff (size : Nat) (hostname hostaddr : Bytes) :
    OriginNamesPeer libidn regdomHt size hostname hostaddr hostaddr ↔
      hostname = bracketed hostaddr ∨ registrableDomain libidn regdomHt size hostname = [] ∨
        registrableDomain libidn regdomHt size hostname = hostaddr := by
  unfold OriginNamesPeer
  constructor
  · rintro ⟨named, -⟩
    by_cases chosen : hostname ≠ bracketed hostaddr ∧
        registrableDomain libidn regdomHt size hostname ≠ []
    · rw [if_pos chosen] at named
      exact .inr (.inr named.symm)
    · by_cases same : hostname = bracketed hostaddr
      · exact .inl same
      · refine .inr (.inl ?_)
        by_contra filled
        exact chosen ⟨same, filled⟩
  · intro allowed
    refine ⟨?_, fun filled => filled⟩
    rcases allowed with same | empty | same
    · exact (if_neg fun chosen => chosen.1 same).symm
    · exact (if_neg fun chosen => chosen.2 empty).symm
    · rw [same, ite_self]

/-- Whenever a length is returned: the origin names the peer exactly when a known host
name has a registrable domain, and an unknown one is the address or has none. -/
theorem origin_names_peer_iff (size : Nat) (hostname hostaddr behind : Bytes) {origin : Bytes}
    (written : milterOrigin libidn regdomHt size hostname hostaddr behind = some origin) :
    OriginNamesPeer libidn regdomHt size hostname hostaddr origin ↔
      if HostnameKnown hostname hostaddr behind then
        registrableDomain libidn regdomHt size hostname ≠ []
      else
        hostname = bracketed hostaddr ∨ registrableDomain libidn regdomHt size hostname = [] ∨
          registrableDomain libidn regdomHt size hostname = hostaddr := by
  by_cases known : HostnameKnown hostname hostaddr behind
  · rw [if_pos known]
    exact origin_of_known libidn regdomHt known written
  · rw [milterOrigin, if_neg known] at written
    rw [if_neg known]
    by_cases long : hostaddr.length ≥ size
    · rw [if_pos long] at written
      cases written
    · rw [if_neg long] at written
      cases written
      exact address_names_peer_iff libidn regdomHt size hostname hostaddr

end Origin

/-- A build without international names. -/
def plainLibidn : Libidn := ⟨fun _ => none, fun _ _ => (false, [])⟩

def comRules : RegdomHt := [⟨cstr "com", false, false⟩]

theorem localhost_has_an_empty_origin :
    milterOrigin plainLibidn comRules 256 (cstr "localhost") (cstr "127.0.0.1") [] = some [] ∧
      ¬ OriginNamesPeer plainLibidn comRules 256 (cstr "localhost") (cstr "127.0.0.1") [] := by
  have known : HostnameKnown (cstr "localhost") (cstr "127.0.0.1") [] := by decide
  constructor
  · rw [milterOrigin, if_pos known, Regdom.regdomPunycode_ascii _ _ (by decide) (by decide)]
    decide
  · rintro ⟨-, filled⟩
    exact filled (by decide) rfl

theorem origin_of_a_mail_host :
    OriginNamesPeer plainLibidn comRules 256 (cstr "mail.example.com") (cstr "192.0.2.1")
      (cstr "example.com") := by
  have known : HostnameKnown (cstr "mail.example.com") (cstr "192.0.2.1") [] := by decide
  have domain : regdomPunycode plainLibidn comRules 256 (some (cstr "mail.example.com")) =
      some (cstr "example.com") := by
    rw [Regdom.regdomPunycode_ascii _ _ (by decide) (by decide)]
    decide
  refine (origin_names_peer_iff plainLibidn comRules 256 _ _ [] ?_).mpr ?_
  · rw [milterOrigin, if_pos known, domain]
  · rw [if_pos known, registrableDomain, domain]
    decide

end Mopher.Milter
