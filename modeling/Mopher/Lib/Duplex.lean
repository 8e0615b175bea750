import Mathlib

/-!
# Two parties on a stream

Two parties that read and write bytes over a connection, in any interleaving.  What one
of them writes travels in segments, and a read returns what has arrived, at most as many
bytes as were asked for.  A write that is not longer than `whole` travels in one
segment, a longer one is cut anywhere.  A read from a party that has closed the
connection returns nothing once everything has arrived; reads and writes can fail from
then on.

`Settles` is the rule for such systems: with an invariant that counts the steps that are
left, every run comes to an end, and it ends well.
-/

set_option autoImplicit false

universe u

/-! ## Systems that come to an end -/

namespace Settle

section Settle
variable {C : Type u} (step : C → C → Prop)

/-- States that are reached in a number of steps. -/
inductive Steps (start : C) : Nat → C → Prop where
  | refl : Steps start 0 start
  | tail {n : Nat} {c c' : C} : Steps start n c → step c c' → Steps start (n + 1) c'

/-- No run is longer than some number of steps, and where no step is left the end is
good. -/
structure Settles (start : C) (good : C → Prop) : Prop where
  bounded : ∃ bound, ∀ n c, Steps step start n c → n ≤ bound
  ends : ∀ n c, Steps step start n c → (∀ c', ¬ step c c') → good c

variable {step}

/-- An invariant with the number of steps that are left. -/
theorem settles_of_budget {Inv : Nat → C → Prop} {good : C → Prop} {start : C} {budget : Nat}
    (first : Inv budget start)
    (keep : ∀ n c c', Inv n c → step c c' → ∃ m < n, Inv m c')
    (goes : ∀ n c, Inv n c → good c ∨ ∃ c', step c c') : Settles step start good := by
  have spent {n : Nat} {c : C} (steps : Steps step start n c) : ∃ m, n + m ≤ budget ∧ Inv m c := by
    induction steps with
    | refl => exact ⟨budget, by omega, first⟩
    | tail steps stepped ih =>
        obtain ⟨m, left, holds⟩ := ih
        obtain ⟨m', less, holds'⟩ := keep m _ _ holds stepped
        exact ⟨m', by omega, holds'⟩
  constructor
  · refine ⟨budget, ?_⟩
    intro n c steps
    obtain ⟨m, left, _⟩ := spent steps
    omega
  · intro n c steps stuck
    obtain ⟨m, _, holds⟩ := spent steps
    rcases goes m c holds with done | ⟨c', stepped⟩
    · exact done
    · exact absurd stepped (stuck c')

end Settle

end Settle

/-! ## Connections -/

namespace Duplex

/-- One direction of a connection: segments that are on their way, in order, and bytes
that have arrived and were not read. -/
structure Pipe where
  flight : List (List UInt8)
  arrived : List UInt8

def Pipe.empty : Pipe := ⟨[], []⟩

def Pipe.send (p : Pipe) (segments : List (List UInt8)) : Pipe := ⟨p.flight ++ segments, p.arrived⟩

def Pipe.take (p : Pipe) (count : Nat) : Pipe := ⟨p.flight, p.arrived.drop count⟩

/-- What a party does next; one that halts may close the connection.  A write succeeds or
fails, and a read returns bytes or fails. -/
inductive Action (S : Type u) where
  | halt (closed : Bool)
  | write (bytes : List UInt8) (next : Bool → S)
  | read (max : Nat) (next : Option (List UInt8) → S)

def Action.closed {S : Type u} : Action S → Bool
  | .halt closed => closed
  | _ => false

/-- How the bytes of one write are cut. -/
structure Cut (whole : Nat) (bytes : List UInt8) (segments : List (List UInt8)) : Prop where
  all : segments.flatten = bytes
  filled : ∀ segment ∈ segments, segment ≠ []
  small : bytes.length ≤ whole → segments.length ≤ 1

theorem Cut.whole {whole : Nat} {bytes : List UInt8} {segments : List (List UInt8)}
    (cut : Cut whole bytes segments) (some' : bytes ≠ []) (small : bytes.length ≤ whole) :
    segments = [bytes] := by
  have few := cut.small small
  have all := cut.all
  match segments with
  | [] => exact absurd all.symm some'
  | [segment] =>
      rw [List.flatten_singleton] at all
      rw [all]
  | _ :: _ :: _ => simp at few

theorem Cut.length_le {whole : Nat} {bytes : List UInt8} {segments : List (List UInt8)}
    (cut : Cut whole bytes segments) : segments.length ≤ bytes.length := by
  rw [← cut.all]
  have filled := cut.filled
  clear cut
  induction segments with
  | nil => exact Nat.le_refl 0
  | cons first rest ih =>
      have positive := List.length_pos_iff.mpr (filled first List.mem_cons_self)
      have others := ih fun segment member => filled segment (List.mem_cons_of_mem _ member)
      rw [List.flatten_cons, List.length_append, List.length_cons]
      omega

theorem cut_one (whole : Nat) {bytes : List UInt8} (some' : bytes ≠ []) : Cut whole bytes [bytes] := by
  refine ⟨List.flatten_singleton, ?_, fun _ => Nat.le_refl 1⟩
  intro segment member
  rw [List.mem_singleton.mp member]
  exact some'

theorem cut_single (whole : Nat) (bytes : List UInt8) : ∃ segments, Cut whole bytes segments := by
  cases bytes with
  | nil =>
      refine ⟨[], rfl, ?_, fun _ => Nat.zero_le 1⟩
      intro segment member
      cases member
  | cons first rest => exact ⟨_, cut_one whole (List.cons_ne_nil first rest)⟩

/-- A party moves: it writes, it reads some of what has arrived, or it meets the end of
the stream. -/
inductive Move {S : Type u} (act : S → Action S) (whole : Nat) (peerClosed : Bool) :
    S × Pipe × Pipe → S × Pipe × Pipe → Prop where
  | write {s : S} {inward outward : Pipe} {bytes : List UInt8} {segments : List (List UInt8)}
      {next : Bool → S} :
      act s = .write bytes next → Cut whole bytes segments →
      Move act whole peerClosed (s, inward, outward) (next true, inward, outward.send segments)
  | writeFails {s : S} {inward outward : Pipe} {bytes : List UInt8} {next : Bool → S} :
      act s = .write bytes next → peerClosed = true →
      Move act whole peerClosed (s, inward, outward) (next false, inward, outward)
  | read {s : S} {inward outward : Pipe} {max : Nat} {next : Option (List UInt8) → S} :
      act s = .read max next → inward.arrived ≠ [] →
      Move act whole peerClosed (s, inward, outward)
        (next (some (inward.arrived.take max)), inward.take max, outward)
  | eof {s : S} {outward : Pipe} {max : Nat} {next : Option (List UInt8) → S} :
      act s = .read max next → peerClosed = true →
      Move act whole peerClosed (s, .empty, outward) (next (some []), .empty, outward)
  | readFails {s : S} {inward outward : Pipe} {max : Nat} {next : Option (List UInt8) → S} :
      act s = .read max next → peerClosed = true →
      Move act whole peerClosed (s, inward, outward) (next none, inward, outward)

/-- Two parties and the pipes to each of them. -/
structure Config (S T : Type u) where
  left : S
  right : T
  toLeft : Pipe
  toRight : Pipe

section Steps
variable {S T : Type u} (left : S → Action S) (right : T → Action T) (whole : Nat)

inductive Step : Config S T → Config S T → Prop where
  | left {s s' : S} {t : T} {inward outward inward' outward' : Pipe} :
      Move left whole (right t).closed (s, inward, outward) (s', inward', outward') →
      Step ⟨s, t, inward, outward⟩ ⟨s', t, inward', outward'⟩
  | right {s : S} {t t' : T} {inward outward inward' outward' : Pipe} :
      Move right whole (left s).closed (t, inward, outward) (t', inward', outward') →
      Step ⟨s, t, outward, inward⟩ ⟨s, t', outward', inward'⟩
  | arriveLeft {s : S} {t : T} {segment arrived : List UInt8} {rest : List (List UInt8)} {outward : Pipe} :
      Step ⟨s, t, ⟨segment :: rest, arrived⟩, outward⟩ ⟨s, t, ⟨rest, arrived ++ segment⟩, outward⟩
  | arriveRight {s : S} {t : T} {segment arrived : List UInt8} {rest : List (List UInt8)} {outward : Pipe} :
      Step ⟨s, t, outward, ⟨segment :: rest, arrived⟩⟩ ⟨s, t, outward, ⟨rest, arrived ++ segment⟩⟩

end Steps

/-! ## What a move can be -/

section Moves
variable {S : Type u} {act : S → Action S} {whole : Nat} {closed : Bool} {s s' : S}
  {inward outward inward' outward' : Pipe} {bytes : List UInt8} {max : Nat}
  {written : Bool → S} {got : Option (List UInt8) → S}

theorem Move.of_halt {closes : Bool} (halts : act s = .halt closes)
    (move : Move act whole closed (s, inward, outward) (s', inward', outward')) : False := by
  cases move with
  | write writes _ => rw [halts] at writes; cases writes
  | writeFails writes _ => rw [halts] at writes; cases writes
  | read reads _ => rw [halts] at reads; cases reads
  | eof reads _ => rw [halts] at reads; cases reads
  | readFails reads _ => rw [halts] at reads; cases reads

theorem Move.of_write (writes : act s = .write bytes written)
    (move : Move act whole closed (s, inward, outward) (s', inward', outward')) :
    inward' = inward ∧
      ((∃ segments, Cut whole bytes segments ∧ s' = written true ∧ outward' = outward.send segments) ∨
        (closed = true ∧ s' = written false ∧ outward' = outward)) := by
  cases move with
  | write writes' cut =>
      rw [writes] at writes'
      cases writes'
      exact ⟨rfl, .inl ⟨_, cut, rfl, rfl⟩⟩
  | writeFails writes' gone =>
      rw [writes] at writes'
      cases writes'
      exact ⟨rfl, .inr ⟨gone, rfl, rfl⟩⟩
  | read reads _ => rw [writes] at reads; cases reads
  | eof reads _ => rw [writes] at reads; cases reads
  | readFails reads _ => rw [writes] at reads; cases reads

theorem Move.of_read (reads : act s = .read max got)
    (move : Move act whole closed (s, inward, outward) (s', inward', outward')) :
    outward' = outward ∧
      (inward.arrived ≠ [] ∧ s' = got (some (inward.arrived.take max)) ∧ inward' = inward.take max ∨
        closed = true ∧ inward' = inward ∧ (s' = got none ∨ inward = .empty ∧ s' = got (some []))) := by
  cases move with
  | write writes _ => rw [reads] at writes; cases writes
  | writeFails writes _ => rw [reads] at writes; cases writes
  | read reads' there =>
      rw [reads] at reads'
      cases reads'
      exact ⟨rfl, .inl ⟨there, rfl, rfl⟩⟩
  | eof reads' gone =>
      rw [reads] at reads'
      cases reads'
      exact ⟨rfl, .inr ⟨gone, rfl, .inr ⟨rfl, rfl⟩⟩⟩
  | readFails reads' gone =>
      rw [reads] at reads'
      cases reads'
      exact ⟨rfl, .inr ⟨gone, rfl, .inl rfl⟩⟩

/-- As long as the other side is there, a write is on its way. -/
theorem Move.of_write_open (writes : act s = .write bytes written) (opened : closed = false)
    (move : Move act whole closed (s, inward, outward) (s', inward', outward')) :
    inward' = inward ∧
      ∃ segments, Cut whole bytes segments ∧ s' = written true ∧ outward' = outward.send segments := by
  obtain ⟨same, ⟨segments, sent⟩ | ⟨gone, _⟩⟩ := move.of_write writes
  · exact ⟨same, segments, sent⟩
  · rw [opened] at gone
    cases gone

/-- As long as the other side is there, a read returns what has arrived. -/
theorem Move.of_read_open (reads : act s = .read max got) (opened : closed = false)
    (move : Move act whole closed (s, inward, outward) (s', inward', outward')) :
    inward.arrived ≠ [] ∧ s' = got (some (inward.arrived.take max)) ∧ inward' = inward.take max ∧
      outward' = outward := by
  obtain ⟨same, ⟨there, next, rest⟩ | ⟨gone, _⟩⟩ := move.of_read reads
  · exact ⟨there, next, rest, same⟩
  · rw [opened] at gone
    cases gone

end Moves

section Cases
variable {S T : Type u} {left : S → Action S} {right : T → Action T} {whole : Nat} {s : S} {t : T}
  {toLeft toRight : Pipe} {c : Config S T}

theorem Step.cases (step : Step left right whole ⟨s, t, toLeft, toRight⟩ c) :
    (∃ s' inward outward, Move left whole (right t).closed (s, toLeft, toRight) (s', inward, outward) ∧
        c = ⟨s', t, inward, outward⟩) ∨
      (∃ t' inward outward, Move right whole (left s).closed (t, toRight, toLeft) (t', inward, outward) ∧
        c = ⟨s, t', outward, inward⟩) ∨
      (∃ segment rest, toLeft.flight = segment :: rest ∧
        c = ⟨s, t, ⟨rest, toLeft.arrived ++ segment⟩, toRight⟩) ∨
      (∃ segment rest, toRight.flight = segment :: rest ∧
        c = ⟨s, t, toLeft, ⟨rest, toRight.arrived ++ segment⟩⟩) := by
  cases step with
  | left move => exact .inl ⟨_, _, _, move, rfl⟩
  | right move => exact .inr (.inl ⟨_, _, _, move, rfl⟩)
  | arriveLeft => exact .inr (.inr (.inl ⟨_, _, rfl, rfl⟩))
  | arriveRight => exact .inr (.inr (.inr ⟨_, _, rfl, rfl⟩))

end Cases

/-! ## A message that travels in one piece -/

section Carries

/-- The pipe has nothing else in it. -/
inductive Carries (bytes : List UInt8) : Pipe → Prop where
  | flying : Carries bytes ⟨[bytes], []⟩
  | landed : Carries bytes ⟨[], bytes⟩

variable {bytes : List UInt8} {p : Pipe} {whole : Nat} {segments : List (List UInt8)}

theorem carries_send (cut : Cut whole bytes segments) (some' : bytes ≠ [])
    (small : bytes.length ≤ whole) : Carries bytes (Pipe.empty.send segments) := by
  rw [cut.whole some' small]
  exact .flying

/-- It lands as a whole. -/
theorem Carries.arrive (carries : Carries bytes p) {segment : List UInt8}
    {rest : List (List UInt8)} (flies : p.flight = segment :: rest) :
    p.flight.length = 1 ∧ (⟨rest, p.arrived ++ segment⟩ : Pipe) = ⟨[], bytes⟩ := by
  cases carries with
  | flying => cases flies; exact ⟨rfl, rfl⟩
  | landed => cases flies

/-- It is read as a whole. -/
theorem Carries.read (carries : Carries bytes p) {max : Nat} (room : bytes.length ≤ max)
    (there : p.arrived ≠ []) : p.arrived.take max = bytes ∧ p.take max = .empty := by
  cases carries with
  | flying => exact absurd rfl there
  | landed =>
      refine ⟨List.take_of_length_le room, ?_⟩
      rw [Pipe.take, List.drop_eq_nil_of_le room]
      rfl

end Carries

/-! ## One side writes, the other one reads -/

section Turns
variable {S T : Type u} {left : S → Action S} {right : T → Action T} {whole max max' : Nat} {s : S}
  {t : T} {bytes : List UInt8} {p : Pipe} {written : Bool → S} {got : Option (List UInt8) → T}
  {got' : Option (List UInt8) → S} {c c' : Config S T}

/-- The same connection from the other side. -/
def Config.swap (c : Config S T) : Config T S := ⟨c.right, c.left, c.toRight, c.toLeft⟩

theorem Step.swap (step : Step left right whole c c') : Step right left whole c.swap c'.swap := by
  cases step with
  | left move => exact .right move
  | right move => exact .left move
  | arriveLeft => exact .arriveRight
  | arriveRight => exact .arriveLeft

theorem Action.open_of_read {act : S → Action S} (reads : act s = .read max got') :
    (act s).closed = false := by
  rw [reads]
  rfl

theorem Action.open_of_write {act : S → Action S} (writes : act s = .write bytes written) :
    (act s).closed = false := by
  rw [writes]
  rfl

/-- With nothing on its way only the side that writes can go on. -/
theorem Step.of_write (writes : left s = .write bytes written) (reads : right t = .read max got)
    (step : Step left right whole ⟨s, t, .empty, .empty⟩ c) :
    ∃ segments, Cut whole bytes segments ∧ c = ⟨written true, t, .empty, Pipe.empty.send segments⟩ := by
  obtain ⟨s', inward, outward, move, rfl⟩ | ⟨t', inward, outward, move, rfl⟩ | ⟨_, _, flies, _⟩ |
    ⟨_, _, flies, _⟩ := step.cases
  · obtain ⟨rfl, segments, cut, rfl, rfl⟩ := move.of_write_open writes (Action.open_of_read reads)
    exact ⟨segments, cut, rfl⟩
  · exact absurd rfl (move.of_read_open reads (Action.open_of_write writes)).1
  · cases flies
  · cases flies

/-- A message in one piece lands, or is read. -/
theorem Step.of_carries (waits : left s = .read max' got') (reads : right t = .read max got)
    (carries : Carries bytes p) (room : bytes.length ≤ max)
    (step : Step left right whole ⟨s, t, .empty, p⟩ c) :
    (p.flight.length = 1 ∧ c = ⟨s, t, .empty, ⟨[], bytes⟩⟩) ∨ c = ⟨s, got (some bytes), .empty, .empty⟩ := by
  obtain ⟨s', inward, outward, move, rfl⟩ | ⟨t', inward, outward, move, rfl⟩ | ⟨_, _, flies, _⟩ |
    ⟨segment, rest, flies, rfl⟩ := step.cases
  · exact absurd rfl (move.of_read_open waits (Action.open_of_read reads)).1
  · obtain ⟨there, rfl, rfl, rfl⟩ := move.of_read_open reads (Action.open_of_read waits)
    obtain ⟨all, nothing⟩ := carries.read room there
    rw [all, nothing]
    exact .inr rfl
  · cases flies
  · obtain ⟨one, landed⟩ := carries.arrive flies
    rw [landed]
    exact .inl ⟨one, rfl⟩

theorem Config.of_swap {d : Config T S} (same : c.swap = d) : c = d.swap := by
  rw [← same]
  rfl

/-- `of_write` for the other side. -/
theorem Step.of_write_right {written : Bool → T} {got : Option (List UInt8) → S}
    (writes : right t = .write bytes written) (reads : left s = .read max got)
    (step : Step left right whole ⟨s, t, .empty, .empty⟩ c) :
    ∃ segments, Cut whole bytes segments ∧ c = ⟨s, written true, Pipe.empty.send segments, .empty⟩ := by
  obtain ⟨segments, cut, same⟩ := step.swap.of_write writes reads
  exact ⟨segments, cut, Config.of_swap same⟩

/-- `of_carries` for the other side. -/
theorem Step.of_carries_left {got : Option (List UInt8) → S} {got' : Option (List UInt8) → T}
    (waits : right t = .read max' got') (reads : left s = .read max got)
    (carries : Carries bytes p) (room : bytes.length ≤ max)
    (step : Step left right whole ⟨s, t, p, .empty⟩ c) :
    (p.flight.length = 1 ∧ c = ⟨s, t, ⟨[], bytes⟩, .empty⟩) ∨ c = ⟨got (some bytes), t, .empty, .empty⟩ := by
  obtain ⟨one, same⟩ | same := step.swap.of_carries waits reads carries room
  · exact .inl ⟨one, Config.of_swap same⟩
  · exact .inr (Config.of_swap same)

theorem Step.can_write {toLeft toRight : Pipe} (whole : Nat)
    (writes : left s = .write bytes written) :
    ∃ c, Step left right whole ⟨s, t, toLeft, toRight⟩ c := by
  obtain ⟨segments, cut⟩ := cut_single whole bytes
  exact ⟨_, .left (.write writes cut)⟩

/-- A pipe with something in it brings a reader on. -/
theorem Step.can_read {toLeft toRight : Pipe} (reads : right t = .read max got)
    (there : toRight.arrived ++ toRight.flight.flatten ≠ []) :
    ∃ c, Step left right whole ⟨s, t, toLeft, toRight⟩ c := by
  obtain ⟨flight, arrived⟩ := toRight
  cases flight with
  | nil =>
      refine ⟨_, .right (.read reads ?_)⟩
      simpa using there
  | cons segment rest => exact ⟨_, .arriveRight⟩

theorem Step.can_write_right {toLeft toRight : Pipe} {written : Bool → T} (whole : Nat)
    (writes : right t = .write bytes written) :
    ∃ c, Step left right whole ⟨s, t, toLeft, toRight⟩ c := by
  obtain ⟨segments, cut⟩ := cut_single whole bytes
  exact ⟨_, .right (.write writes cut)⟩

theorem Step.can_read_left {toLeft toRight : Pipe} (reads : left s = .read max got')
    (there : toLeft.arrived ++ toLeft.flight.flatten ≠ []) :
    ∃ c, Step left right whole ⟨s, t, toLeft, toRight⟩ c := by
  obtain ⟨flight, arrived⟩ := toLeft
  cases flight with
  | nil =>
      refine ⟨_, .left (.read reads ?_)⟩
      simpa using there
  | cons segment rest => exact ⟨_, .arriveLeft⟩

theorem Carries.there (carries : Carries bytes p) (some' : bytes ≠ []) :
    p.arrived ++ p.flight.flatten ≠ [] := by
  cases carries with
  | flying => simpa using some'
  | landed => simpa using some'

end Turns

end Duplex
