import Mathlib

/-!
# Read, modify, write without a lock in between

Threads share one cell.  A call reads the cell, computes on its private copy and
writes the result back; the read and the write are atomic, the call is not.  A
schedule is any interleaving of these steps.

The cell holds a counter, and a ghost tally says what it should be: every call
that writes adds its credit to what is stored at that moment.  The counter is
right in every state of a run exactly when every write is based on the counter
that is stored, and it is whenever no other write falls between the read and the
write of a call.
-/

set_option autoImplicit false

namespace ReadModifyWrite

/-- `seen op value n` is what a counter value `n` of `value` means to a call; it
differs from `n` where a call starts anew instead of counting on. -/
structure Counter (σ loc op : Type) where
  compute : op → loc → σ → Option σ × loc
  count : σ → Int
  seen : op → σ → Int → Int
  credit : op → loc → σ → Int
  adds : ∀ (o : op) (own : loc) (read written : σ), (compute o own read).1 = some written →
    count written = seen o read (count read) + credit o own read

structure Thread (σ loc op : Type) where
  own : loc
  pending : Option (op × σ)

structure State (σ loc op : Type) where
  cell : σ
  threads : Nat → Thread σ loc op
  tally : Int

inductive Step (op : Type) where
  | get (thread : Nat) (o : op)
  | set (thread : Nat)

section Run
variable {σ loc op : Type} (counter : Counter σ loc op)

/-- One atomic step; `none` if the thread is not at it. -/
def step (s : State σ loc op) : Step op → Option (State σ loc op)
  | .get t o =>
      match (s.threads t).pending with
      | some _ => none
      | none =>
          some { s with
            threads := Function.update s.threads t ⟨(s.threads t).own, some (o, s.cell)⟩ }
  | .set t =>
      match (s.threads t).pending with
      | none => none
      | some (o, read) =>
          let (written, own) := counter.compute o (s.threads t).own read
          some
            { cell := written.getD s.cell
              threads := Function.update s.threads t ⟨own, none⟩
              tally :=
                match written with
                | none => s.tally
                | some _ =>
                    counter.seen o s.cell s.tally + counter.credit o (s.threads t).own read }

def run (s : State σ loc op) : List (Step op) → Option (State σ loc op)
  | [] => some s
  | first :: rest => (step counter s first).bind fun next => run next rest

theorem run_append (first second : List (Step op)) : ∀ s : State σ loc op,
    run counter s (first ++ second) =
      (run counter s first).bind fun next => run counter next second := by
  induction first with
  | nil => intro s; rfl
  | cons head rest ih =>
      intro s
      simp only [List.cons_append, run, Option.bind_assoc, ih]

theorem run_snoc (s : State σ loc op) (schedule : List (Step op)) (last : Step op) :
    run counter s (schedule ++ [last]) =
      (run counter s schedule).bind fun next => step counter next last := by
  rw [run_append]
  congr 1
  funext next
  simp [run]

/-- No thread is inside a call, and the tally is the counter. -/
def start (cell : σ) (own : Nat → loc) : State σ loc op :=
  ⟨cell, fun t => ⟨own t, none⟩, counter.count cell⟩

/-- The tally is right in every state of the run. -/
def CountsAll (first : State σ loc op) (schedule : List (Step op)) : Prop :=
  ∀ earlier later s, schedule = earlier ++ later → run counter first earlier = some s →
    counter.count s.cell = s.tally

/-- A step of `t` would write to the cell. -/
def Writes (s : State σ loc op) (t : Nat) : Prop :=
  ∃ o read, (s.threads t).pending = some (o, read) ∧
    (counter.compute o (s.threads t).own read).1.isSome

/-- What `t` would write is based on the counter that is stored. -/
def Current (s : State σ loc op) (t : Nat) : Prop :=
  ∀ o read, (s.threads t).pending = some (o, read) →
    (counter.compute o (s.threads t).own read).1.isSome →
    counter.seen o read (counter.count read) = counter.seen o s.cell (counter.count s.cell)

def AllCurrent (first : State σ loc op) (schedule : List (Step op)) : Prop :=
  ∀ earlier t later s, schedule = earlier ++ .set t :: later → run counter first earlier = some s →
    Current counter s t

/-- No call writes between the read and the write of another one. -/
def NoneOvertaken (first : State σ loc op) (schedule : List (Step op)) : Prop :=
  ∀ earlier t o between later, schedule = earlier ++ .get t o :: between ++ .set t :: later →
    .set t ∉ between →
    ∀ front u back s, between = front ++ .set u :: back →
      run counter first (earlier ++ .get t o :: front) = some s → ¬ Writes counter s u

/-! ## One step -/

theorem step_set {s next : State σ loc op} {t : Nat} (success : step counter s (.set t) = some next) :
    ∃ o read, (s.threads t).pending = some (o, read) ∧
      (next.threads t).pending = none ∧ (∀ u, u ≠ t → next.threads u = s.threads u) ∧
      ((counter.compute o (s.threads t).own read).1 = none ∧
          next.cell = s.cell ∧ next.tally = s.tally ∨
        ∃ written, (counter.compute o (s.threads t).own read).1 = some written ∧
          next.cell = written ∧
          next.tally = counter.seen o s.cell s.tally + counter.credit o (s.threads t).own read) := by
  simp only [step] at success
  cases pending : (s.threads t).pending with
  | none => simp [pending] at success
  | some pair =>
      obtain ⟨o, read⟩ := pair
      simp only [pending] at success
      cases Option.some.inj success
      refine ⟨o, read, rfl, by simp, ?_, ?_⟩
      · intro u distinct
        simp [distinct]
      · cases written : (counter.compute o (s.threads t).own read).1 with
        | none => exact .inl ⟨rfl, by simp, by simp⟩
        | some value => exact .inr ⟨value, rfl, by simp, by simp⟩

theorem step_get {s next : State σ loc op} {t : Nat} {o : op}
    (success : step counter s (.get t o) = some next) :
    (s.threads t).pending = none ∧ (next.threads t).pending = some (o, s.cell) ∧
      (∀ u, u ≠ t → next.threads u = s.threads u) ∧ next.cell = s.cell ∧ next.tally = s.tally := by
  simp only [step] at success
  cases pending : (s.threads t).pending with
  | some pair => simp [pending] at success
  | none =>
      simp only [pending] at success
      cases Option.some.inj success
      refine ⟨rfl, by simp, ?_, rfl, rfl⟩
      intro u distinct
      simp [distinct]

/-- A write keeps the counter right exactly if it is based on the stored one. -/
theorem set_counts_iff {s next : State σ loc op} {t : Nat}
    (success : step counter s (.set t) = some next) (right : counter.count s.cell = s.tally) :
    counter.count next.cell = next.tally ↔ Current counter s t := by
  obtain ⟨o, read, pending, -, -, ⟨silent, cell, tally⟩ | ⟨written, writes, cell, tally⟩⟩ :=
    step_set counter success
  · rw [cell, tally]
    constructor
    · intro _ o' read' pending' writes
      rw [pending] at pending'
      cases pending'
      simp [silent] at writes
    · intro _
      exact right
  · rw [cell, tally, counter.adds o _ read written writes, ← right]
    constructor
    · intro equal o' read' pending' _
      rw [pending] at pending'
      cases pending'
      omega
    · intro current
      rw [current o read pending (by simp [writes])]

theorem countsAll_iff (first : State σ loc op) (schedule : List (Step op))
    (right : counter.count first.cell = first.tally) :
    CountsAll counter first schedule ↔ AllCurrent counter first schedule := by
  constructor
  · intro counts earlier t later s split reached
    cases success : step counter s (.set t) with
    | none =>
        intro o read pending _
        simp [step, pending] at success
    | some next =>
        have before := counts earlier (.set t :: later) s split reached
        have after := counts (earlier ++ [.set t]) later next (by simp [split])
          (by rw [run_snoc, reached]; exact success)
        exact (set_counts_iff counter success before).mp after
  · intro current earlier
    induction earlier using List.reverseRecOn with
    | nil =>
        intro later s _ reached
        cases Option.some.inj reached
        exact right
    | append_singleton earlier last ih =>
        intro later s split reached
        rw [run_snoc] at reached
        obtain ⟨before, reachedBefore, success⟩ := Option.bind_eq_some_iff.mp reached
        have rightBefore := ih (last :: later) before (by simp [split]) reachedBefore
        cases last with
        | get t o =>
            obtain ⟨-, -, -, cell, tally⟩ := step_get counter success
            rw [cell, tally]
            exact rightBefore
        | set t =>
            apply (set_counts_iff counter success rightBefore).mpr
            exact current earlier t later before (by simp [split]) reachedBefore

/-! ## Calls that are not overtaken -/

/-- The copy of a waiting thread is the cell, unless it was written since. -/
theorem pending_copy (first : State σ loc op) (schedule : List (Step op))
    (idle : ∀ t, (first.threads t).pending = none) :
    ∀ s t o read, run counter first schedule = some s → (s.threads t).pending = some (o, read) →
      ∃ earlier between, schedule = earlier ++ Step.get t o :: between ∧ Step.set t ∉ between ∧
        ((∀ front u back s', between = front ++ Step.set u :: back →
            run counter first (earlier ++ Step.get t o :: front) = some s' → ¬ Writes counter s' u) →
          read = s.cell) := by
  induction schedule using List.reverseRecOn with
  | nil =>
      intro s t o read reached pending
      cases Option.some.inj reached
      rw [idle t] at pending
      cases pending
  | append_singleton schedule last ih =>
      intro s t o read reached pending
      rw [run_snoc] at reached
      obtain ⟨before, reachedBefore, success⟩ := Option.bind_eq_some_iff.mp reached
      cases last with
      | get u o' =>
          obtain ⟨-, own, others, cell, -⟩ := step_get counter success
          by_cases same : t = u
          · subst same
            rw [own] at pending
            cases pending
            exact ⟨schedule, [], rfl, by simp, fun _ => cell.symm⟩
          · rw [others t same] at pending
            obtain ⟨earlier, between, rfl, absent, copy⟩ := ih before t o read reachedBefore pending
            refine ⟨earlier, between ++ [Step.get u o'], by simp, by simp [absent], ?_⟩
            intro quiet
            rw [cell]
            apply copy
            intro front v back s' split
            exact quiet front v (back ++ [Step.get u o']) s' (by simp [split])
      | set u =>
          obtain ⟨o', read', pendingU, own, others, effect⟩ := step_set counter success
          have distinct : t ≠ u := by
            rintro rfl
            rw [own] at pending
            cases pending
          rw [others t distinct] at pending
          obtain ⟨earlier, between, rfl, absent, copy⟩ := ih before t o read reachedBefore pending
          refine ⟨earlier, between ++ [Step.set u], by simp, by simp [absent, distinct], ?_⟩
          intro quiet
          rcases effect with ⟨-, cell, -⟩ | ⟨written, writes, -, -⟩
          · rw [cell]
            apply copy
            intro front v back s' split
            exact quiet front v (back ++ [Step.set u]) s' (by simp [split])
          · have noWrite := quiet between u [] before rfl reachedBefore
            exact absurd ⟨o', read', pendingU, by simp [writes]⟩ noWrite

theorem allCurrent_of_noneOvertaken (first : State σ loc op) (schedule : List (Step op))
    (idle : ∀ t, (first.threads t).pending = none)
    (quiet : NoneOvertaken counter first schedule) : AllCurrent counter first schedule := by
  intro done t later s split reached o read pending _
  obtain ⟨earlier, between, rfl, absent, copy⟩ :=
    pending_copy counter first done idle s t o read reached pending
  have same : read = s.cell := by
    apply copy
    exact quiet earlier t o between later (by simp [split]) absent
  rw [same]

/-- The library's main result, from a state in which no call is open. -/
theorem counts_from_start (cell : σ) (own : Nat → loc) (schedule : List (Step op)) :
    (CountsAll counter (start counter cell own) schedule ↔
      AllCurrent counter (start counter cell own) schedule) ∧
    (NoneOvertaken counter (start counter cell own) schedule →
      CountsAll counter (start counter cell own) schedule) := by
  have equivalence := countsAll_iff counter (start counter cell own) schedule rfl
  refine ⟨equivalence, ?_⟩
  intro quiet
  exact equivalence.mpr (allCurrent_of_noneOvertaken counter _ schedule (fun _ => rfl) quiet)

end Run

end ReadModifyWrite
