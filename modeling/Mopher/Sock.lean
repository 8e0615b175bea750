import Mopher.Var
import Mopher.Ll

/-!
# Servers in turn

Model of `sock_connect_rr` in `sock.c`, which any number of threads call for one
`sock_rr_t`.  The next server is taken under `sr_mutex`.  At the end of the list the
position is set back without the mutex, and a thread that has met the end may do so
when the others are already on their way through the list again.

`tried`, `ends` and `seen` are no part of the program: they count how often a server
was taken and how often the end was met, and when a thread met it.
-/

set_option autoImplicit false

namespace Mopher.Sock

open Chain

/-- Where a thread is; `i` counts its attempts. -/
inductive Pc where
  | idle
  | fetch (i : Nat)
  | wrap (i : Nat) (seen : Nat)
  | connect (i : Nat) (uri : Bytes)

/-- `sr_pos`, and the threads. -/
structure State (ι : Type) where
  pos : Option Nat
  pcs : ι → Pc
  tried : Nat → Nat
  ends : Nat

section Model
variable {ι : Type} [DecidableEq ι] (heap : Heap Bytes) (list : Ll) (retries : Nat) (last : Nat)

/-- `sock_rr_init`. -/
def sockRrInit (list : Ll) : State ι := ⟨list.head, fun _ => .idle, fun _ => 0, 0⟩

def State.put (s : State ι) (a : ι) (pc : Pc) : State ι := { s with pcs := Function.update s.pcs a pc }

/-- What follows after an attempt that failed. -/
def retry (retries i : Nat) : Pc := if i + 1 < retries then .fetch (i + 1) else .idle

/-- One step of a thread in `sock_connect_rr`. -/
inductive Step : State ι → State ι → Prop where
  | call {s : State ι} {a : ι} : s.pcs a = .idle → 0 < retries → Step s (s.put a (.fetch 0))
  | next {s : State ι} {a : ι} {i entry : Nat} {uri : Bytes} {pos : Option Nat} : s.pcs a = .fetch i →
      s.pos = some entry → llNext heap s.pos = some (some uri, pos) →
      Step s { s.put a (.connect i uri) with
        pos := pos, tried := Function.update s.tried entry (s.tried entry + 1) }
  | finish {s : State ι} {a : ι} {i : Nat} {pos : Option Nat} : s.pcs a = .fetch i →
      llNext heap s.pos = some (none, pos) →
      Step s { s.put a (.wrap i (s.tried last)) with pos := pos, ends := s.ends + 1 }
  | wrap {s : State ι} {a : ι} {i seen : Nat} : s.pcs a = .wrap i seen →
      Step s { s.put a (.fetch i) with pos := list.head }
  | connected {s : State ι} {a : ι} {i : Nat} {uri : Bytes} : s.pcs a = .connect i uri →
      Step s (s.put a .idle)
  | failed {s : State ι} {a : ι} {i : Nat} {uri : Bytes} : s.pcs a = .connect i uri →
      Step s (s.put a (retry retries i))
  | unlocked {s : State ι} {a : ι} {i : Nat} : s.pcs a = .fetch i → Step s (s.put a .idle)

inductive Reach : State ι → Prop where
  | init : Reach (sockRrInit list)
  | step {s s' : State ι} : Reach s → Step heap list retries last s s' → Reach s'

end Model

/-! ## Counting threads -/

section Count
variable {ι : Type} [Fintype ι]

def count (p : Pc → Bool) (pcs : ι → Pc) : Nat := ∑ a, (p (pcs a)).toNat

theorem count_update [DecidableEq ι] (p : Pc → Bool) (pcs : ι → Pc) (a : ι) (pc : Pc) :
    count p (Function.update pcs a pc) + (p (pcs a)).toNat = count p pcs + (p pc).toNat := by
  have others : ∑ b ∈ Finset.univ.erase a, (p (Function.update pcs a pc b)).toNat =
      ∑ b ∈ Finset.univ.erase a, (p (pcs b)).toNat := by
    apply Finset.sum_congr rfl
    intro b member
    rw [Function.update_of_ne (Finset.ne_of_mem_erase member)]
  rw [count, count, ← Finset.add_sum_erase Finset.univ _ (Finset.mem_univ a),
    ← Finset.add_sum_erase Finset.univ (fun b => (p (pcs b)).toNat) (Finset.mem_univ a), others,
    Function.update_self]
  omega

theorem count_le (p : Pc → Bool) (pcs : ι → Pc) : count p pcs ≤ Fintype.card ι := by
  calc count p pcs
    _ ≤ ∑ _ : ι, 1 := Finset.sum_le_sum fun a _ => Bool.toNat_le _
    _ = Fintype.card ι := by simp

/-- The thread has met the end and has not set back the position. -/
def waits : Pc → Bool
  | .wrap _ _ => true
  | _ => false

/-- It has met the end in the latest round. -/
def latest (round : Nat) : Pc → Bool
  | .wrap _ seen => seen == round
  | _ => false

end Count

/-! ## Rounds -/

section Fair
variable {ι : Type} [Fintype ι] [DecidableEq ι] {heap : Heap Bytes} {list : Ll} {retries : Nat}
  {cells : List (Nat × Bytes)} {front : List (Nat × Bytes)} {lastCell : Nat × Bytes}

/-- How often the server at this place was taken. -/
def triedAt (cells : List (Nat × Bytes)) (s : State ι) (k : Nat) : Nat :=
  (cells[k]?).elim 0 fun cell => s.tried cell.1

/-- The position is at a place of the list, and no server is ahead of the one before it
but by the round that the threads are in. -/
structure Fair (cells : List (Nat × Bytes)) (s : State ι) (place : Nat) : Prop where
  inside : place ≤ cells.length
  pos : s.pos = (cells[place]?).map Prod.fst
  chain : ∀ k, k + 1 < cells.length →
    triedAt cells s (k + 1) + (if place = k + 1 then 1 else 0) ≤ triedAt cells s k
  first : triedAt cells s 0 + count waits s.pcs + (if place = 0 then 1 else 0) ≤ 1 + s.ends
  ends : if place = cells.length then
      s.ends + Fintype.card ι ≤ Fintype.card ι * triedAt cells s (cells.length - 1) +
        count (latest (triedAt cells s (cells.length - 1))) s.pcs
    else s.ends ≤ Fintype.card ι * triedAt cells s (cells.length - 1)
  seen : ∀ a i round, s.pcs a = .wrap i round → round ≤ triedAt cells s (cells.length - 1)

omit [Fintype ι] in
theorem waits_of_latest {round : Nat} {pc : Pc} (not : waits pc = false) : latest round pc = false := by
  cases pc with
  | wrap i seen => cases not
  | idle => rfl
  | fetch i => rfl
  | connect i uri => rfl

theorem count_put {p : Pc → Bool} {s : State ι} {a : ι} {pc : Pc} (before : p (s.pcs a) = false)
    (after : p pc = false) : count p (Function.update s.pcs a pc) = count p s.pcs := by
  have counted := count_update p s.pcs a pc
  rw [before, after] at counted
  exact counted

variable {s : State ι} {place : Nat}

/-- A thread goes on without the list. -/
theorem Fair.put (fair : Fair cells s place) {a : ι} {pc : Pc} (before : waits (s.pcs a) = false)
    (after : waits pc = false) : Fair cells (s.put a pc) place := by
  constructor
  · exact fair.inside
  · exact fair.pos
  · exact fair.chain
  · show triedAt cells s 0 + count waits (Function.update s.pcs a pc) + _ ≤ 1 + s.ends
    rw [count_put before after]
    exact fair.first
  · show if place = cells.length then
        s.ends + Fintype.card ι ≤ Fintype.card ι * triedAt cells s (cells.length - 1) +
          count (latest (triedAt cells s (cells.length - 1))) (Function.update s.pcs a pc)
      else s.ends ≤ Fintype.card ι * triedAt cells s (cells.length - 1)
    rw [count_put (waits_of_latest before) (waits_of_latest after)]
    exact fair.ends
  · intro b i round here
    change Function.update s.pcs a pc b = _ at here
    by_cases same : b = a
    · rw [same, Function.update_self] at here
      rw [here] at after
      cases after
    · rw [Function.update_of_ne same] at here
      exact fair.seen b i round here

/-- A thread that has met the end sets the position back. -/
theorem Fair.wrap (fair : Fair cells s place) (some' : cells ≠ []) {a : ι} {i seen : Nat}
    (here : s.pcs a = .wrap i seen) :
    Fair cells { s.put a (.fetch i) with pos := cells.head?.map Prod.fst } 0 := by
  have positive := List.length_pos_iff.mpr some'
  have waiting := count_update waits s.pcs a (.fetch i)
  rw [here] at waiting
  simp only [waits, Bool.toNat_true, Bool.toNat_false] at waiting
  constructor
  · exact Nat.zero_le _
  · rw [List.head?_eq_getElem?]
  · intro k inside
    rw [if_neg (by omega), Nat.add_zero]
    exact Nat.le_trans (Nat.le_add_right _ _) (fair.chain k inside)
  · show triedAt cells s 0 + count waits (Function.update s.pcs a (.fetch i)) + 1 ≤ 1 + s.ends
    have first := fair.first
    omega
  · rw [if_neg (by omega)]
    show s.ends ≤ Fintype.card ι * triedAt cells s (cells.length - 1)
    have ends := fair.ends
    by_cases done : place = cells.length
    · rw [if_pos done] at ends
      have few := count_le (latest (triedAt cells s (cells.length - 1))) s.pcs
      omega
    · rw [if_neg done] at ends
      exact ends
  · intro b j round there
    change Function.update s.pcs a (.fetch i) b = _ at there
    by_cases same : b = a
    · rw [same, Function.update_self] at there
      cases there
    · rw [Function.update_of_ne same] at there
      exact fair.seen b j round there

/-- A thread meets the end. -/
theorem Fair.finish (fair : Fair cells s place) (done : place = cells.length) {a : ι} {i : Nat}
    (here : s.pcs a = .fetch i) {pos : Option Nat} (ended : pos = none) :
    Fair cells { s.put a (.wrap i (triedAt cells s (cells.length - 1))) with
      pos := pos, ends := s.ends + 1 } place := by
  have waiting := count_update waits s.pcs a (.wrap i (triedAt cells s (cells.length - 1)))
  have late := count_update (latest (triedAt cells s (cells.length - 1))) s.pcs a
    (.wrap i (triedAt cells s (cells.length - 1)))
  rw [here] at waiting late
  simp only [waits, latest, beq_self_eq_true, Bool.toNat_true, Bool.toNat_false, Nat.add_zero] at waiting late
  constructor
  · exact fair.inside
  · rw [ended, done, List.getElem?_eq_none (Nat.le_refl _)]
    rfl
  · exact fair.chain
  · show triedAt cells s 0 + count waits (Function.update s.pcs a _) + _ ≤ 1 + (s.ends + 1)
    have first := fair.first
    omega
  · show if place = cells.length then
        s.ends + 1 + Fintype.card ι ≤ Fintype.card ι * triedAt cells s (cells.length - 1) +
          count (latest (triedAt cells s (cells.length - 1))) (Function.update s.pcs a _)
      else _
    have ends := fair.ends
    rw [if_pos done] at ends ⊢
    omega
  · intro b j round there
    change Function.update s.pcs a _ b = _ at there
    by_cases same : b = a
    · rw [same, Function.update_self] at there
      cases there
      exact Nat.le_refl _
    · rw [Function.update_of_ne same] at there
      exact fair.seen b j round there

omit [Fintype ι] [DecidableEq ι] in
/-- The count of the server that is taken goes up, and no other one. -/
theorem triedAt_update (nodup : (addresses cells).Nodup) {cell : Nat × Bytes}
    (there : cells[place]? = some cell) {s' : State ι}
    (tried : s'.tried = Function.update s.tried cell.1 (s.tried cell.1 + 1)) {k : Nat}
    (inside : k < cells.length) : triedAt cells s' k = triedAt cells s k + if k = place then 1 else 0 := by
  have here : cells[k]? = some cells[k] := List.getElem?_eq_getElem inside
  rw [triedAt, triedAt, here, tried]
  simp only [Option.elim_some]
  by_cases same : k = place
  · subst same
    rw [here] at there
    cases there
    rw [Function.update_self, if_pos rfl]
  · have apart : cells[k].1 ≠ cell.1 := by
      intro equal
      obtain ⟨inside', there'⟩ := List.getElem?_eq_some_iff.mp there
      have bound : k < (addresses cells).length := by rw [addresses, List.length_map]; exact inside
      have bound' : place < (addresses cells).length := by rw [addresses, List.length_map]; exact inside'
      have equal' : (addresses cells)[k] = (addresses cells)[place] := by
        simp only [addresses, List.getElem_map, there', equal]
      exact same (nodup.getElem_inj_iff.mp equal')
    rw [Function.update_of_ne apart, if_neg same, Nat.add_zero]

/-- A thread takes the server at the position. -/
theorem Fair.next (fair : Fair cells s place) (nodup : (addresses cells).Nodup) {cell : Nat × Bytes}
    (there : cells[place]? = some cell) {a : ι} {i : Nat} (here : s.pcs a = .fetch i) {uri : Bytes}
    {pos : Option Nat} (moved : pos = (cells[place + 1]?).map Prod.fst) :
    Fair cells { s.put a (.connect i uri) with
      pos := pos, tried := Function.update s.tried cell.1 (s.tried cell.1 + 1) } (place + 1) := by
  obtain ⟨inside, _⟩ := List.getElem?_eq_some_iff.mp there
  have counts {k : Nat} (bound : k < cells.length) :
      triedAt cells { s.put a (.connect i uri) with
        pos := pos, tried := Function.update s.tried cell.1 (s.tried cell.1 + 1) } k =
      triedAt cells s k + if k = place then 1 else 0 := triedAt_update nodup there rfl bound
  have before : waits (s.pcs a) = false := by rw [here]; rfl
  constructor
  · exact inside
  · exact moved
  · intro k bound
    have chain := fair.chain k bound
    rw [counts bound, counts (by omega)]
    by_cases same : k = place
    · simp only [same, if_true]
      rw [same] at chain
      split at chain <;> split <;> omega
    · rw [if_neg same, if_neg (show ¬ place + 1 = k + 1 by omega)]
      by_cases next : k + 1 = place
      · rw [if_pos next]
        rw [if_pos next.symm] at chain
        exact chain
      · rw [if_neg next]
        omega
  · rw [counts (by omega), if_neg (Nat.succ_ne_zero place)]
    show triedAt cells s 0 + _ + count waits (Function.update s.pcs a _) + 0 ≤ 1 + s.ends
    rw [count_put before rfl]
    have first := fair.first
    by_cases start : place = 0
    · rw [if_pos start] at first
      rw [if_pos start.symm]
      omega
    · rw [if_neg start] at first
      rw [if_neg (fun zero => start zero.symm)]
      omega
  · have ends := fair.ends
    rw [if_neg (by omega)] at ends
    rw [counts (by omega)]
    show if place + 1 = cells.length then s.ends + _ ≤ _ else s.ends ≤ _
    by_cases done : place + 1 = cells.length
    · rw [if_pos done, if_pos (by omega), Nat.mul_succ]
      omega
    · rw [if_neg done, if_neg (by omega)]
      exact ends
  · intro b j round there'
    rw [counts (by omega)]
    change Function.update s.pcs a _ b = _ at there'
    by_cases same : b = a
    · rw [same, Function.update_self] at there'
      cases there'
    · rw [Function.update_of_ne same] at there'
      exact Nat.le_trans (fair.seen b j round there') (Nat.le_add_right _ _)

omit [DecidableEq ι] in
theorem init_fair (some' : cells ≠ []) (head : list.head = cells.head?.map Prod.fst) :
    Fair cells (sockRrInit list : State ι) 0 := by
  have positive := List.length_pos_iff.mpr some'
  have none' (k : Nat) : triedAt cells (sockRrInit list : State ι) k = 0 := by
    rw [triedAt]
    cases cells[k]? with
    | none => rfl
    | some cell => rfl
  have still : count waits (sockRrInit list : State ι).pcs = 0 := by
    simp [count, sockRrInit, waits]
  constructor
  · exact Nat.zero_le _
  · rw [← List.head?_eq_getElem?]
    exact head
  · intro k inside
    rw [none', none', if_neg (by omega)]
  · rw [none', still]
    exact Nat.le_refl 1
  · rw [if_neg (by omega)]
    exact Nat.zero_le _
  · intro a i round there
    cases there

end Fair

/-! ## Fairness -/

section Runs
variable {ι : Type} [Fintype ι] [DecidableEq ι] {heap : Heap Bytes} {list : Ll} {retries : Nat}
  {front : List (Nat × Bytes)} {back : Nat × Bytes} {s : State ι}

theorem Reach.fair (path : Path heap list.head (front ++ [back]) none)
    (nodup : (addresses (front ++ [back])).Nodup) (reach : Reach heap list retries back.1 s) :
    ∃ place, Fair (front ++ [back]) s place := by
  have some' : front ++ [back] ≠ [] := by simp
  have head := path.start_eq
  have last : ∀ s : State ι, triedAt (front ++ [back]) s ((front ++ [back]).length - 1) =
      s.tried back.1 := by
    intro s
    simp [triedAt]
  induction reach with
  | init => exact ⟨0, init_fair some' head⟩
  | @step s s' _ step ih =>
      obtain ⟨place, fair⟩ := ih
      cases step with
      | call here _ => exact ⟨place, fair.put (by rw [here]; rfl) rfl⟩
      | @next a i entry uri pos here at' got =>
          have inside : place < (front ++ [back]).length := by
            by_contra outside
            have none' := fair.pos
            rw [List.getElem?_eq_none (by omega), at'] at none'
            cases none'
          have there := List.getElem?_eq_getElem inside
          have entry' : entry = ((front ++ [back])[place]).1 := by
            have same := fair.pos
            rw [there, at'] at same
            exact Option.some.inj same
          subst entry'
          rw [at', llNext, path.at there] at got
          cases got
          exact ⟨place + 1, fair.next nodup there here rfl⟩
      | @finish a i pos here got =>
          have done : place = (front ++ [back]).length := by
            by_contra more
            have inside : place < (front ++ [back]).length := by
              have := fair.inside
              omega
            have there := List.getElem?_eq_getElem inside
            rw [fair.pos, there, Option.map_some, llNext, path.at there] at got
            cases got
          have ended : s.pos = none := by
            rw [fair.pos, done, List.getElem?_eq_none (Nat.le_refl _)]
            rfl
          rw [ended] at got
          cases got
          have finished := fair.finish done here rfl
          rw [last] at finished
          exact ⟨place, finished⟩
      | wrap here =>
          have wrapped := fair.wrap some' here
          rw [← head] at wrapped
          exact ⟨0, wrapped⟩
      | @connected a i uri here => exact ⟨place, fair.put (by rw [here]; rfl) rfl⟩
      | @failed a i uri here =>
          refine ⟨place, fair.put (by rw [here]; rfl) ?_⟩
          unfold retry
          split
          · rfl
          · rfl
      | @unlocked a i here => exact ⟨place, fair.put (by rw [here]; rfl) rfl⟩

variable {cells : List (Nat × Bytes)} {place : Nat}

omit [DecidableEq ι] in
theorem Fair.antitone (fair : Fair cells s place) {j k : Nat} (order : j ≤ k) (inside : k < cells.length) :
    triedAt cells s k ≤ triedAt cells s j := by
  induction k with
  | zero =>
      obtain rfl : j = 0 := Nat.le_zero.mp order
      exact Nat.le_refl _
  | succ k ih =>
      by_cases same : j = k + 1
      · rw [same]
      · have before := ih (by omega) (by omega)
        have chain := fair.chain k inside
        omega

omit [DecidableEq ι] in
/-- The first server against the last one. -/
theorem Fair.spread (fair : Fair cells s place) :
    triedAt cells s 0 ≤ 1 + Fintype.card ι * triedAt cells s (cells.length - 1) := by
  have first := fair.first
  have ends := fair.ends
  by_cases done : place = cells.length
  · rw [if_pos done] at ends
    have few := count_le (latest (triedAt cells s (cells.length - 1))) s.pcs
    omega
  · rw [if_neg done] at ends
    omega

def sampleHeap : Heap Bytes :=
  Function.update (Function.update (fun _ => none) 4 (some ⟨[97], some 6⟩)) 6 (some ⟨[98], none⟩)

end Runs

end Mopher.Sock
