import Mopher.Eval.Acl
import Mopher.Eval.Frame
import Mopher.Lib.CBuffer
import Mopher.Lib.PartialRun

/-!
# Tarpitting

Model of `tarpit.c`.  `tarpit` sleeps in naps of `tarpit_progress_interval` seconds
and adds its delay to `tarpit_delayed` of the connection.  The configuration takes
every number for the interval: with 0 no nap makes the remaining time less, and a
negative number is a nap of its low 32 bits, however little time remains.
-/

set_option autoImplicit false

namespace Mopher.Tarpit

open CBuffer PartialRun

/-! ## The naps -/

/-- What `tarpit` meets outside: how many seconds are left when `sleep` returns,
whether `milter_running` is set and whether `smfi_progress` succeeds, by the number
of such events before. -/
structure Outside where
  sleep : Nat → Nat → Nat
  running : Nat → Bool
  progress : Nat → Bool

/-- The events so far and the seconds asleep. -/
structure Naps where
  events : Nat
  slept : Nat

def utilMin (a b : Int) : Int := if a < b then a else b

section Model
variable (outside : Outside)

/-- The inner loop; `sleep` takes an `unsigned int`. -/
def napLoop : Nat → Int → Naps → Option Naps
  | 0, _, _ => none
  | fuel + 1, nap, s =>
      let seconds := (nap % 2 ^ 32).toNat
      let left := outside.sleep s.events seconds
      let slept := s.slept + (seconds - left)
      if cInt left = 0 then some ⟨s.events + 1, slept⟩
      else if outside.running (s.events + 1) then napLoop fuel (cInt left) ⟨s.events + 2, slept⟩
      else some ⟨s.events + 2, slept⟩

/-- `nap` is an `int`. -/
def tarpitNap (interval remaining : Int) : Int := cInt (utilMin remaining interval)

def tarpitLoop (interval : Int) : Nat → Int → Naps → Option (TarpitEnd × Naps)
  | 0, _, _ => none
  | fuel + 1, remaining, s =>
      let nap := tarpitNap interval remaining
      let remaining := wrapLong (remaining - nap)
      match napLoop outside fuel nap s with
      | none => none
      | some s =>
          if remaining ≤ 0 then some (.done, s)
          else if !outside.running s.events then some (.stopped, ⟨s.events + 1, s.slept⟩)
          else if !outside.progress (s.events + 1) then some (.aborted, ⟨s.events + 2, s.slept⟩)
          else tarpitLoop interval fuel remaining ⟨s.events + 2, s.slept⟩

/-- `tarpit` with its naps once its expression was evaluated. -/
def tarpitNapping (interval : Int) (fuel : Nat) (v : Value) (w : World) (s : Naps) :
    Option (Except Fault (AclActionType × World) × Naps) :=
  match v with
  | .scalar (.int delay) =>
      if delay ≤ 0 then some (.ok (.none, w), s)
      else if (vtableGet w.symbols "milter_ctx").isNone then some (.ok (.error, w), s)
      else
        match tarpitLoop outside interval fuel delay s with
        | none => none
        | some (.stopped, s) => some (.ok (.error, w), s)
        | some (.aborted, s) => some (.ok (.tempfail, w), s)
        | some (.done, s) => some (.ok (.none, tarpitDelayed w delay), s)
  | .nil .int => some (.error .nullRead, s)
  | _ => some (.ok (.error, w), s)

/-- What else is done with a connection leaves its context and `tarpit_delayed`. -/
structure OtherChange where
  change : World → World
  context : ∀ w, (change w).symbols "milter_ctx" = w.symbols "milter_ctx"
  delayed : ∀ w, (change w).symbols "tarpit_delayed" = w.symbols "tarpit_delayed"

/-- What happens to a connection: `tarpit` with a delay, a look at the symbol
`tarpit_delayed`, and everything else. -/
inductive Event where
  | tarpit (delay : Int)
  | symbol (stage : StageMask)
  | other (other : OtherChange)

structure State where
  world : World
  naps : Naps

/-- One event.  `tarpit` has to be completed; the callback of the symbol is only called
while nothing is stored. -/
def tarpitStep (interval : Int) (fuel : Nat) (s : State) : Event → Option State
  | .tarpit delay =>
      match tarpitNapping outside interval fuel (.scalar (.int delay)) s.world s.naps with
      | some (.ok (.none, w), naps) => some ⟨w, naps⟩
      | _ => none
  | .symbol stage =>
      if (s.world.symbols "tarpit_delayed").isSome then some s
      else some { s with world := (tarpitDelay stage "tarpit_delayed" s.world).1 }
  | .other other => some { s with world := other.change s.world }

end Model

/-! ## What is expected -/

/-- The milter keeps running, `smfi_progress` succeeds, and `sleep` returns early with
the seconds that are left a finite number of times. -/
structure Steady (outside : Outside) : Prop where
  within : ∀ n seconds, outside.sleep n seconds ≤ seconds
  finite : ∃ last, ∀ n, last ≤ n → ∀ seconds, outside.sleep n seconds = 0
  running : ∀ n, outside.running n = true
  progress : ∀ n, outside.progress n = true

/-- The delays of a sequence of events. -/
def delays (events : List Event) : List Int :=
  events.filterMap fun event =>
    match event with
    | .tarpit delay => some delay
    | _ => none

/-- `tarpit_delayed` as an expression reads it. -/
def tarpitTotal (w : World) : Int :=
  match vtableGet w.symbols "tarpit_delayed" with
  | some (.scalar (.int total)) => total
  | _ => 0

/-- `tarpit` sleeps as long as it was asked to. -/
def SleepsDelay (outside : Outside) (interval : Int) (fuel : Nat) (s : State) : Event → Prop
  | .tarpit delay => ∀ next, tarpitStep outside interval fuel s (.tarpit delay) = some next →
      (next.naps.slept : Int) = s.naps.slept + delay
  | _ => True

/-- The naps fit the delay: the interval is positive, or the low 32 bits of it are a
positive number that divides the delay. -/
def Fits (interval delay : Int) : Prop :=
  0 < interval ∨ (0 < cInt interval ∧ cInt interval ∣ delay)

/-! ## One nap -/

section Nap
variable {outside : Outside}

/-- The naps of the inner loop add up to what it was started with. -/
theorem napLoop_slept (steady : Steady outside) (fuel : Nat) : ∀ (nap : Int) (s s' : Naps),
    napLoop outside fuel nap s = some s' → s'.slept = s.slept + (nap % 2 ^ 32).toNat := by
  induction fuel with
  | zero => intro nap s s' ran; cases ran
  | succ fuel ih =>
      intro nap s s' ran
      have within := steady.within s.events (nap % 2 ^ 32).toNat
      have small : outside.sleep s.events (nap % 2 ^ 32).toNat < 2 ^ 32 := by omega
      simp only [napLoop] at ran
      by_cases spent : cInt (outside.sleep s.events (nap % 2 ^ 32).toNat) = 0
      · rw [if_pos spent] at ran
        cases ran
        have none' := (cInt_eq_zero_iff small).mp spent
        simp only [none', Nat.sub_zero]
      · rw [if_neg spent, steady.running, if_pos rfl] at ran
        have rest := ih _ _ _ ran
        have again : (cInt (outside.sleep s.events (nap % 2 ^ 32).toNat) % 2 ^ 32).toNat =
            outside.sleep s.events (nap % 2 ^ 32).toNat := by
          rw [cInt_emod]
          omega
        rw [again] at rest
        rw [rest]
        dsimp only
        omega

/-- The inner loop ends once `sleep` does not return early any more. -/
theorem napLoop_ends (steady : Steady outside) {last : Nat}
    (quiet : ∀ n, last ≤ n → ∀ seconds, outside.sleep n seconds = 0) (fuel : Nat) :
    ∀ (nap : Int) (s : Naps), last ≤ s.events + fuel →
      ∃ s', napLoop outside (fuel + 1) nap s = some s' := by
  induction fuel with
  | zero =>
      intro nap s late
      have rested : outside.sleep s.events (nap % 2 ^ 32).toNat = 0 := quiet _ late _
      have spent : cInt (outside.sleep s.events (nap % 2 ^ 32).toNat) = 0 := by
        rw [rested]
        decide
      exact ⟨_, if_pos spent⟩
  | succ fuel ih =>
      intro nap s late
      by_cases spent : cInt (outside.sleep s.events (nap % 2 ^ 32).toNat) = 0
      · exact ⟨_, if_pos spent⟩
      · obtain ⟨s', ran⟩ := ih (cInt (outside.sleep s.events (nap % 2 ^ 32).toNat))
          ⟨s.events + 2, s.slept + ((nap % 2 ^ 32).toNat -
            outside.sleep s.events (nap % 2 ^ 32).toNat)⟩ (by dsimp only; omega)
        refine ⟨s', ?_⟩
        rw [napLoop, if_neg spent, steady.running, if_pos rfl]
        exact ran

end Nap

/-! ## The loop -/

theorem wrapLong_of_bounds {n : Int} (low : -2 ^ 63 ≤ n) (high : n < 2 ^ 63) : wrapLong n = n := by
  unfold wrapLong
  rw [Int.bmod_eq_of_le]
  · omega
  · omega

section Loop
variable {outside : Outside} {interval remaining : Int}

theorem tarpitNap_bounds (interval remaining : Int) :
    -2 ^ 31 ≤ tarpitNap interval remaining ∧ tarpitNap interval remaining < 2 ^ 31 :=
  cInt_bounds _

/-- A positive interval never makes a nap of more than the time that remains. -/
theorem tarpitNap_positive (positive : 0 < interval) (some' : 0 < remaining)
    (small : remaining < 2 ^ 31) :
    0 < tarpitNap interval remaining ∧ tarpitNap interval remaining ≤ remaining := by
  have least : 0 < utilMin remaining interval ∧ utilMin remaining interval ≤ remaining := by
    unfold utilMin
    split <;> omega
  unfold tarpitNap
  rw [cInt_of_bounds (by omega) (by omega)]
  exact least

/-- Any other interval is less than the time that remains. -/
theorem tarpitNap_low (low : interval ≤ 0) (some' : 0 < remaining) :
    tarpitNap interval remaining = cInt interval := by
  unfold tarpitNap utilMin
  rw [if_neg (by omega)]

theorem Fits.nap_pos (fits : Fits interval remaining) (some' : 0 < remaining)
    (small : remaining < 2 ^ 31) : 0 < tarpitNap interval remaining := by
  by_cases positive : 0 < interval
  · exact (tarpitNap_positive positive some' small).1
  · rw [tarpitNap_low (by omega) some']
    rcases fits with positive' | divides
    · exact absurd positive' positive
    · exact divides.1

/-- The naps fit what a nap leaves exactly when they fit the time before it. -/
theorem fits_rest_iff (some' : 0 < remaining) :
    Fits interval (remaining - tarpitNap interval remaining) ↔ Fits interval remaining := by
  by_cases positive : 0 < interval
  · exact iff_of_true (.inl positive) (.inl positive)
  · rw [tarpitNap_low (by omega) some']
    unfold Fits
    rw [dvd_sub_self_right]

/-- One nap, and what is done after it. -/
theorem tarpitLoop_cases (steady : Steady outside) {fuel : Nat} {s s' : Naps} {ending : TarpitEnd}
    (ran : tarpitLoop outside interval (fuel + 1) remaining s = some (ending, s')) :
    ∃ mid : Naps, mid.slept = s.slept + (tarpitNap interval remaining % 2 ^ 32).toNat ∧
      (wrapLong (remaining - tarpitNap interval remaining) ≤ 0 ∧ ending = .done ∧ s' = mid ∨
        0 < wrapLong (remaining - tarpitNap interval remaining) ∧
          tarpitLoop outside interval fuel (wrapLong (remaining - tarpitNap interval remaining))
            ⟨mid.events + 2, mid.slept⟩ = some (ending, s')) := by
  simp only [tarpitLoop] at ran
  cases nap : napLoop outside fuel (tarpitNap interval remaining) s with
  | none => simp only [nap] at ran; cases ran
  | some mid =>
      refine ⟨mid, napLoop_slept steady fuel _ _ _ nap, ?_⟩
      simp only [nap] at ran
      split at ran
      · rename_i spent
        cases ran
        exact .inl ⟨spent, rfl, rfl⟩
      · rename_i more
        rw [steady.running, steady.progress] at ran
        exact .inr ⟨by omega, ran⟩

theorem tarpitLoop_slept_le (steady : Steady outside) (fuel : Nat) : ∀ (remaining : Int)
    (s s' : Naps) (ending : TarpitEnd),
    tarpitLoop outside interval fuel remaining s = some (ending, s') → s.slept ≤ s'.slept := by
  induction fuel with
  | zero => intro remaining s s' ending ran; cases ran
  | succ fuel ih =>
      intro remaining s s' ending ran
      obtain ⟨mid, slept, spent | more⟩ := tarpitLoop_cases steady ran
      · obtain ⟨_, _, rfl⟩ := spent
        omega
      · have later := ih _ _ _ _ more.2
        dsimp only at later
        omega

theorem tarpitLoop_done (steady : Steady outside) (fuel : Nat) : ∀ (remaining : Int)
    (s s' : Naps) (ending : TarpitEnd),
    tarpitLoop outside interval fuel remaining s = some (ending, s') → ending = .done := by
  induction fuel with
  | zero => intro remaining s s' ending ran; cases ran
  | succ fuel ih =>
      intro remaining s s' ending ran
      obtain ⟨mid, slept, spent | more⟩ := tarpitLoop_cases steady ran
      · exact spent.2.1
      · exact ih _ _ _ _ more.2

/-- A nap as long as the time that remains is what a delay that fits comes to. -/
theorem last_nap_iff (some' : 0 < remaining) (small : remaining < 2 ^ 31)
    (last : remaining ≤ tarpitNap interval remaining) :
    tarpitNap interval remaining = remaining ↔ Fits interval remaining := by
  by_cases positive : 0 < interval
  · have nap := tarpitNap_positive positive some' small
    exact iff_of_true (by omega) (.inl positive)
  · rw [tarpitNap_low (by omega) some'] at last ⊢
    constructor
    · intro same
      rw [← same] at some'
      exact .inr ⟨some', by rw [same]⟩
    · intro fits
      rcases fits with positive' | divides
      · exact absurd positive' positive
      · have most := Int.le_of_dvd some' divides.2
        omega

/-- The loop sleeps as long as it should exactly if the naps fit. -/
theorem tarpitLoop_slept_iff (steady : Steady outside) (fuel : Nat) : ∀ (remaining : Int)
    (s s' : Naps) (ending : TarpitEnd), 0 < remaining → remaining < 2 ^ 31 →
    tarpitLoop outside interval fuel remaining s = some (ending, s') →
      ((s'.slept : Int) = s.slept + remaining ↔ Fits interval remaining) := by
  induction fuel with
  | zero => intro remaining s s' ending _ _ ran; cases ran
  | succ fuel ih =>
      intro remaining s s' ending some' small ran
      have bounds := tarpitNap_bounds interval remaining
      obtain ⟨mid, slept, next⟩ := tarpitLoop_cases steady ran
      have kept : mid.slept ≤ s'.slept := by
        rcases next with spent | more
        · rw [spent.2.2]
        · have later := tarpitLoop_slept_le steady _ _ _ _ _ more.2
          exact later
      have after : wrapLong (remaining - tarpitNap interval remaining) =
          remaining - tarpitNap interval remaining :=
        wrapLong_of_bounds (by omega) (by omega)
      rw [after] at next
      rcases Int.lt_trichotomy (tarpitNap interval remaining) 0 with negative | none' | positive
      · -- the argument of `sleep` is more than every delay
        refine iff_of_false (by omega) ?_
        intro fits
        have := fits.nap_pos some' small
        omega
      · rw [none', Int.sub_zero] at next
        rw [none'] at slept
        rcases next with spent | more
        · omega
        · have rest := ih _ _ _ _ some' small more.2
          dsimp only at rest
          rw [slept] at rest
          exact rest
      · rcases next with spent | more
        · obtain ⟨last, _, rfl⟩ := spent
          rw [← last_nap_iff some' small (by omega)]
          omega
        · have rest := ih _ _ _ _ more.1 (by omega) more.2
          rw [fits_rest_iff some'] at rest
          rw [← rest]
          dsimp only
          omega

/-- Naps that fit come to an end. -/
theorem tarpitLoop_ends (steady : Steady outside) {last : Nat}
    (quiet : ∀ n, last ≤ n → ∀ seconds, outside.sleep n seconds = 0) (fuel : Nat) :
    ∀ (remaining : Int) (s : Naps) (turns : Nat), 0 < remaining → remaining < 2 ^ 31 →
      remaining ≤ turns → turns + last < fuel → Fits interval remaining →
      ∃ s', tarpitLoop outside interval fuel remaining s = some (.done, s') := by
  induction fuel with
  | zero => intro remaining s turns _ _ _ enough _; omega
  | succ fuel ih =>
      intro remaining s turns some' small few enough fits
      have bounds := tarpitNap_bounds interval remaining
      have positive := fits.nap_pos some' small
      have after : wrapLong (remaining - tarpitNap interval remaining) =
          remaining - tarpitNap interval remaining :=
        wrapLong_of_bounds (by omega) (by omega)
      obtain ⟨inner, rfl⟩ : ∃ inner, fuel = inner + 1 := ⟨fuel - 1, by omega⟩
      obtain ⟨mid, nap⟩ := napLoop_ends steady quiet inner (tarpitNap interval remaining) s (by omega)
      by_cases spent : remaining - tarpitNap interval remaining ≤ 0
      · refine ⟨mid, ?_⟩
        simp only [tarpitLoop, nap, after, if_pos spent]
      · obtain ⟨s', ran⟩ := ih (remaining - tarpitNap interval remaining)
          ⟨mid.events + 2, mid.slept⟩ (turns - 1) (by omega) (by omega) (by omega) (by omega)
          ((fits_rest_iff some').mpr fits)
        refine ⟨s', ?_⟩
        rw [tarpitLoop]
        simp only [nap, after, if_neg spent, steady.running, steady.progress, Bool.not_true,
          Bool.false_eq_true, if_false]
        exact ran

end Loop


/-! ## Sequences -/

/-- The context of the connection is there. -/
def Connected (s : State) : Prop := (vtableGet s.world.symbols "milter_ctx").isSome = true

/-- The delays of `tarpit` are positive `int`s. -/
def InRange (events : List Event) : Prop := ∀ delay ∈ delays events, 0 < delay ∧ delay < 2 ^ 31

/-- What is stored after the delays are added one after the other. -/
def storedTotal (total : Int) (delays : List Int) : Int :=
  delays.foldl (fun total delay => wrapLong (total + delay)) total

theorem storedTotal_eq (delays : List Int) : ∀ total : Int, 0 ≤ total →
    (∀ delay ∈ delays, 0 < delay) → total + delays.sum < 2 ^ 63 →
      storedTotal total delays = total + delays.sum := by
  induction delays with
  | nil => intro total _ _ _; simp [storedTotal]
  | cons delay delays ih =>
      intro total natural positive small
      have first := positive delay List.mem_cons_self
      have later : ∀ other ∈ delays, 0 < other :=
        fun other member => positive other (List.mem_cons_of_mem _ member)
      have rest : 0 ≤ delays.sum := List.sum_nonneg fun other member => (later other member).le
      rw [List.sum_cons] at small ⊢
      have added : wrapLong (total + delay) = total + delay :=
        wrapLong_of_bounds (by omega) (by omega)
      have stored := ih (total + delay) (by omega) later (by omega)
      rw [← Int.add_assoc, ← stored, ← added]
      rfl

theorem storedTotal_lt (delays : List Int) : ∀ total : Int, total < 2 ^ 63 →
    storedTotal total delays < 2 ^ 63 := by
  induction delays with
  | nil => intro total small; exact small
  | cons delay delays ih =>
      intro total _
      have high : wrapLong (total + delay) < 2 ^ 63 := by
        have below := Int.bmod_lt (x := total + delay) (m := 2 ^ 64) (by decide)
        unfold wrapLong
        omega
      exact ih _ high

theorem tarpitTotal_tarpitDelayed (w : World) {delay : Int} (natural : 0 < delay)
    (small : delay < 2 ^ 31) :
    tarpitTotal (tarpitDelayed w delay) = wrapLong (tarpitTotal w + delay) := by
  have unset : wrapLong (0 + delay) = delay := by
    rw [Int.zero_add]
    exact wrapLong_of_bounds (by omega) (by omega)
  have stored (total : Int) : tarpitTotal
      { w with symbols := vtableSet w.symbols "tarpit_delayed" (.int total) } = total := by
    simp [tarpitTotal, vtableGet, Value.isNull]
  unfold tarpitDelayed
  rw [stored]
  split
  · rename_i total found
    simp only [tarpitTotal, found]
  · rename_i nothing
    have zero : tarpitTotal w = 0 := by
      unfold tarpitTotal
      split
      · rename_i total found
        exact absurd found (nothing total)
      · rfl
    rw [zero, unset]

section Sequences
variable {outside : Outside} {interval : Int} {fuel : Nat} {s next : State}

/-- `tarpit` is completed exactly when its loop is left with `done`. -/
theorem tarpitStep_tarpit_iff (steady : Steady outside) (connected : Connected s) {delay : Int}
    (positive : 0 < delay) :
    tarpitStep outside interval fuel s (.tarpit delay) = some next ↔
      ∃ naps, tarpitLoop outside interval fuel delay s.naps = some (.done, naps) ∧
        next = ⟨tarpitDelayed s.world delay, naps⟩ := by
  have context : (vtableGet s.world.symbols "milter_ctx").isNone = false := by
    rw [← Option.not_isSome, connected]
    rfl
  have napping : tarpitNapping outside interval fuel (.scalar (.int delay)) s.world s.naps =
      match tarpitLoop outside interval fuel delay s.naps with
      | none => none
      | some (.stopped, s') => some (.ok (.error, s.world), s')
      | some (.aborted, s') => some (.ok (.tempfail, s.world), s')
      | some (.done, s') => some (.ok (.none, tarpitDelayed s.world delay), s') := by
    rw [tarpitNapping, if_neg (by omega), context]
    rfl
  simp only [tarpitStep, napping]
  cases loop : tarpitLoop outside interval fuel delay s.naps with
  | none => simp
  | some result =>
      obtain ⟨ending, naps⟩ := result
      obtain rfl := tarpitLoop_done steady _ _ _ _ _ loop
      simp [eq_comm]

theorem tarpitStep_connected (steady : Steady outside) (connected : Connected s) {event : Event}
    (range : InRange [event]) (stepped : tarpitStep outside interval fuel s event = some next) :
    Connected next := by
  have kept (w : World) (value : Value)
      (there : (vtableGet w.symbols "milter_ctx").isSome = true) :
      (vtableGet (vtableSet w.symbols "tarpit_delayed" value) "milter_ctx").isSome = true := by
    simpa [vtableGet, vtableSet] using there
  cases event with
  | tarpit delay =>
      obtain ⟨naps, _, rfl⟩ := (tarpitStep_tarpit_iff steady connected
        (range delay List.mem_cons_self).1).mp stepped
      exact kept _ _ connected
  | symbol stage =>
      simp only [tarpitStep] at stepped
      split at stepped
      · cases stepped
        exact connected
      · cases stepped
        exact kept _ _ connected
  | other other =>
      cases stepped
      have same := other.context s.world
      unfold Connected vtableGet at connected ⊢
      rw [same]
      exact connected

theorem tarpitStep_total (steady : Steady outside) (connected : Connected s) {event : Event}
    (range : InRange [event]) (stepped : tarpitStep outside interval fuel s event = some next) :
    tarpitTotal next.world = storedTotal (tarpitTotal s.world) (delays [event]) := by
  cases event with
  | tarpit delay =>
      obtain ⟨positive, small⟩ := range delay List.mem_cons_self
      obtain ⟨naps, _, rfl⟩ := (tarpitStep_tarpit_iff steady connected positive).mp stepped
      exact tarpitTotal_tarpitDelayed s.world positive small
  | symbol stage =>
      simp only [tarpitStep] at stepped
      split at stepped
      · cases stepped
        rfl
      · -- nothing was stored, which is read as 0 like what the callback stores
        rename_i unset
        cases stepped
        rw [Bool.not_eq_true, Option.isSome_eq_false_iff, Option.isNone_iff_eq_none] at unset
        simp [tarpitTotal, tarpitDelay, vtableGet, unset, storedTotal, delays]
  | other other =>
      cases stepped
      have same := other.delayed s.world
      unfold tarpitTotal vtableGet
      rw [same]
      rfl

theorem delays_cons (event : Event) (rest : List Event) :
    delays (event :: rest) = delays [event] ++ delays rest :=
  List.filterMap_append (l := [event])

theorem InRange.head {event : Event} {rest : List Event} (range : InRange (event :: rest)) :
    InRange [event] := by
  intro delay member
  apply range
  rw [delays_cons]
  exact List.mem_append_left _ member

theorem InRange.tail {event : Event} {rest : List Event} (range : InRange (event :: rest)) :
    InRange rest := by
  intro delay member
  apply range
  rw [delays_cons]
  exact List.mem_append_right _ member

/-- What is stored after a sequence of completed actions. -/
theorem run_total (steady : Steady outside) (events : List Event) : ∀ s final : State,
    Connected s → InRange events →
    run (tarpitStep outside interval fuel) s events = some final →
      tarpitTotal final.world = storedTotal (tarpitTotal s.world) (delays events) := by
  induction events with
  | nil =>
      intro s final _ _ ran
      cases ran
      rfl
  | cons event rest ih =>
      intro s final connected range ran
      obtain ⟨next, stepped, ran⟩ := Option.bind_eq_some_iff.mp ran
      have connected' := tarpitStep_connected steady connected range.head stepped
      rw [ih next final connected' range.tail ran,
        tarpitStep_total steady connected range.head stepped, delays_cons event rest]
      exact (List.foldl_append ..).symm

/-- Every completed action slept its delay exactly when the naps fit all delays. -/
theorem run_sleeps_iff (steady : Steady outside) (events : List Event) : ∀ s final : State,
    Connected s → InRange events →
    run (tarpitStep outside interval fuel) s events = some final →
      (EachStep (tarpitStep outside interval fuel) (SleepsDelay outside interval fuel) s events ↔
        ∀ delay ∈ delays events, Fits interval delay) := by
  induction events with
  | nil =>
      intro s final _ _ _
      refine iff_of_true (eachStep_nil _ _ _) ?_
      intro delay member
      cases member
  | cons event rest ih =>
      intro s final connected range ran
      obtain ⟨next, stepped, ran⟩ := Option.bind_eq_some_iff.mp ran
      have connected' := tarpitStep_connected steady connected range.head stepped
      have first : SleepsDelay outside interval fuel s event ↔
          ∀ delay ∈ delays [event], Fits interval delay := by
        cases event with
        | symbol stage => simp [SleepsDelay, delays]
        | other other => simp [SleepsDelay, delays]
        | tarpit delay =>
            obtain ⟨positive, small⟩ := range.head delay List.mem_cons_self
            obtain ⟨naps, loop, rfl⟩ :=
              (tarpitStep_tarpit_iff steady connected positive).mp stepped
            have slept := tarpitLoop_slept_iff steady fuel delay _ _ _ positive small loop
            simp [SleepsDelay, delays, stepped, slept]
      rw [eachStep_cons _ stepped, ih next final connected' range.tail ran, first, delays_cons event rest]
      simp only [List.forall_mem_append]

/-- Actions whose naps fit are all completed. -/
theorem run_ends (steady : Steady outside) {last : Nat}
    (quiet : ∀ n, last ≤ n → ∀ seconds, outside.sleep n seconds = 0) (events : List Event) :
    ∀ s : State, Connected s → InRange events → (∀ delay ∈ delays events, Fits interval delay) →
      (∀ delay ∈ delays events, delay.toNat + last < fuel) →
      ∃ final, run (tarpitStep outside interval fuel) s events = some final := by
  induction events with
  | nil => intro s _ _ _ _; exact ⟨s, rfl⟩
  | cons event rest ih =>
      intro s connected range fits enough
      rw [delays_cons, List.forall_mem_append] at fits enough
      have stepped : ∃ next, tarpitStep outside interval fuel s event = some next := by
        cases event with
        | tarpit delay =>
            obtain ⟨positive, small⟩ := range.head delay List.mem_cons_self
            have here : delay ∈ delays [.tarpit delay] := List.mem_cons_self
            obtain ⟨naps, loop⟩ := tarpitLoop_ends steady quiet fuel delay s.naps delay.toNat
              positive small (by omega) (enough.1 delay here) (fits.1 delay here)
            exact ⟨_, (tarpitStep_tarpit_iff steady connected positive).mpr ⟨naps, loop, rfl⟩⟩
        | symbol stage =>
            simp only [tarpitStep]
            split
            · exact ⟨_, rfl⟩
            · exact ⟨_, rfl⟩
        | other other => exact ⟨_, rfl⟩
      obtain ⟨next, stepped⟩ := stepped
      have connected' := tarpitStep_connected steady connected range.head stepped
      obtain ⟨final, ran⟩ := ih next connected' range.tail fits.2 enough.2
      refine ⟨final, ?_⟩
      rw [run_cons _ stepped]
      exact ran

end Sequences

/-- On a connection for which no delay is stored, every `tarpit` of a sequence ends,
its naps add up to its delay and `tarpit_delayed` is the sum of the delays in the end,
exactly when the interval fits all delays and the sum is a `long`. -/
theorem tarpit_exact_iff {outside : Outside} (steady : Steady outside) (interval : BitVec 64)
    (s : State) (connected : Connected s) (fresh : s.world.symbols "tarpit_delayed" = none)
    (events : List Event) (range : InRange events) :
    (∃ fuel final, run (tarpitStep outside interval.toInt fuel) s events = some final ∧
      EachStep (tarpitStep outside interval.toInt fuel)
        (SleepsDelay outside interval.toInt fuel) s events ∧
      tarpitTotal final.world = (delays events).sum) ↔
      (∀ delay ∈ delays events, Fits interval.toInt delay) ∧ (delays events).sum < 2 ^ 63 := by
  have zero : tarpitTotal s.world = 0 := by
    simp only [tarpitTotal, vtableGet, fresh]
  constructor
  · rintro ⟨fuel, final, ran, sleeps, total⟩
    constructor
    · exact (run_sleeps_iff steady events s final connected range ran).mp sleeps
    · rw [← total, run_total steady events s final connected range ran, zero]
      exact storedTotal_lt _ 0 (by decide)
  · rintro ⟨fits, small⟩
    obtain ⟨last, quiet⟩ := steady.finite
    obtain ⟨final, ran⟩ := @run_ends outside interval.toInt
      (((delays events).map Int.toNat).sum + last + 1) steady last quiet events s connected range fits
      (by
        intro delay member
        have most := List.le_sum_of_mem (List.mem_map_of_mem (f := Int.toNat) member)
        omega)
    refine ⟨_, final, ran, ?_, ?_⟩
    · exact (run_sleeps_iff steady events s final connected range ran).mpr fits
    · rw [run_total steady events s final connected range ran, zero]
      have stored := storedTotal_eq (delays events) 0 (Int.le_refl 0)
        (fun delay member => (range delay member).1) (by omega)
      rw [stored, Int.zero_add]

/-- Where the loop ends, `tarpit` with its naps is `tarpit` with the end of the naps. -/
theorem tarpitNapping_eq (outside : Outside) (interval : Int) (fuel : Nat) (v : Value) (w : World)
    (s : Naps) {result : Except Fault (AclActionType × World)} {s' : Naps}
    (ran : tarpitNapping outside interval fuel v w s = some (result, s')) :
    ∃ ending, ∀ env : AclEnv, (∀ delay, env.sleep delay w = ending) → tarpit env v w = result := by
  unfold tarpitNapping at ran
  split at ran
  · rename_i delay
    split at ran
    · rename_i nothing
      cases ran
      refine ⟨.done, fun env _ => ?_⟩
      rw [tarpit, if_pos nothing]
    · rename_i positive
      split at ran
      · rename_i alone
        cases ran
        refine ⟨.done, fun env _ => ?_⟩
        rw [tarpit, if_neg positive, if_pos alone]
      · rename_i context
        split at ran
        · cases ran
        · cases ran
          refine ⟨.stopped, fun env asleep => ?_⟩
          rw [tarpit, if_neg positive, if_neg context, asleep]
        · cases ran
          refine ⟨.aborted, fun env asleep => ?_⟩
          rw [tarpit, if_neg positive, if_neg context, asleep]
        · cases ran
          refine ⟨.done, fun env asleep => ?_⟩
          rw [tarpit, if_neg positive, if_neg context, asleep]
  · cases ran
    exact ⟨.done, fun env _ => rfl⟩
  · rename_i noInt noNil
    cases ran
    refine ⟨.done, fun env _ => ?_⟩
    unfold tarpit
    split
    · exact absurd rfl (noInt _)
    · exact absurd rfl noNil
    · rfl

/-- Where a nap is 0, the time that remains stays as it is. -/
theorem tarpitLoop_zero {outside : Outside} (steady : Steady outside) {interval : Int}
    (low : interval ≤ 0) (zero : cInt interval = 0) (fuel : Nat) : ∀ (remaining : Int) (s : Naps),
    0 < remaining → remaining < 2 ^ 31 → tarpitLoop outside interval fuel remaining s = none := by
  induction fuel with
  | zero => intro remaining s _ _; rfl
  | succ fuel ih =>
      intro remaining s some' small
      cases ran : tarpitLoop outside interval (fuel + 1) remaining s with
      | none => rfl
      | some result =>
          have nap : tarpitNap interval remaining = 0 := by rw [tarpitNap_low low some', zero]
          have same : wrapLong (remaining - tarpitNap interval remaining) = remaining := by
            rw [nap, Int.sub_zero]
            exact wrapLong_of_bounds (by omega) (by omega)
          obtain ⟨ending, s'⟩ := result
          obtain ⟨mid, _, spent | more⟩ := tarpitLoop_cases steady ran
          · omega
          · rw [same] at more
            rw [ih _ _ some' small] at more
            cases more.2

/-- A milter whose first sleep is cut short by a second. -/
def interrupted : Outside where
  sleep n seconds := if n = 0 then min 1 seconds else 0
  running _ := true
  progress _ := true

theorem interrupted_steady : Steady interrupted where
  within n seconds := by
    unfold interrupted
    dsimp only
    split <;> omega
  finite := by
    refine ⟨1, fun n late seconds => ?_⟩
    unfold interrupted
    exact if_neg (by omega)
  running _ := rfl
  progress _ := rfl

/-- A connection with nothing but its context. -/
def connection : State where
  world := { plainWorld [] with symbols := vtableSet (fun _ => none) "milter_ctx" (.scalar (.pointer 1)) }
  naps := ⟨0, 0⟩

/-- Delays of 3 and 2 seconds in naps of at most 2. -/
theorem two_delays_are_slept : ∃ fuel final,
    run (tarpitStep interrupted 2 fuel) connection [.tarpit 3, .symbol 0, .tarpit 2] = some final ∧
      EachStep (tarpitStep interrupted 2 fuel) (SleepsDelay interrupted 2 fuel) connection
        [.tarpit 3, .symbol 0, .tarpit 2] ∧
      tarpitTotal final.world = 5 := by
  have range : InRange [.tarpit 3, .symbol 0, .tarpit 2] := by
    intro delay member
    simp only [delays, List.filterMap_cons, List.filterMap_nil, List.mem_cons, List.not_mem_nil,
      or_false] at member
    omega
  exact (tarpit_exact_iff interrupted_steady 2#64 connection rfl rfl _ range).mpr
    ⟨fun delay _ => .inl (by decide), by decide⟩

/-- With an interval of 0, `tarpit` of one second never ends. -/
theorem zero_interval_never_ends : ¬ ∃ fuel final,
    run (tarpitStep interrupted 0 fuel) connection [.tarpit 1] = some final := by
  rintro ⟨fuel, final, ran⟩
  obtain ⟨next, stepped, _⟩ := Option.bind_eq_some_iff.mp ran
  have connected : Connected connection := rfl
  obtain ⟨naps, loop, _⟩ :=
    (tarpitStep_tarpit_iff interrupted_steady connected (by decide)).mp stepped
  rw [tarpitLoop_zero interrupted_steady (by decide) (by decide) fuel 1 _ (by decide) (by decide)]
    at loop
  cases loop

end Mopher.Tarpit
