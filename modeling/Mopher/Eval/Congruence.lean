import Mopher.Eval.Pointers

/-!
# Answers depend on values

An operator gets pointers and looks at the values behind them.  So a command
answers alike, and writes in place alike, in any two mailspecs in which the
variables it points to have the same values.
-/

set_option autoImplicit false

namespace Mopher

/-- The variables that pointers were handed out to read the same. -/
def SameReads (known : String → Prop) (v w : World) : Prop :=
  ∀ root : Root, root.Scoped known → v.read root = w.read root

mutual

theorem value_congr {known : String → Prop} {v w : World} (same : SameReads known v w) :
    ∀ o : Obj, o.Scoped known → o.value v = o.value w
  | .stored root, handed => same root handed
  | .temp _, _ => rfl
  | .list items, handed => congrArg Value.list (values_congr same items handed)

theorem values_congr {known : String → Prop} {v w : World} (same : SameReads known v w) :
    ∀ items : List (Option Obj), Obj.AllScoped known items → Obj.values v items = Obj.values w items
  | [], _ => rfl
  | none :: rest, handed => congrArg (none :: ·) (values_congr same rest handed)
  | some o :: rest, handed => by
      simp only [Obj.values]
      rw [value_congr same o handed.1, values_congr same rest handed.2]

end

section Congruence
variable {known : String → Prop} {v w : World} (same : SameReads known v w)
include same

theorem operand_congr {o : Option Obj} (handed : ScopedResult known o) :
    o.map (Obj.value v) = o.map (Obj.value w) := by
  cases o with
  | none => rfl
  | some x => exact congrArg some (value_congr same x (handed x rfl))

theorem functionArgs_congr {args : Option Obj} (handed : ScopedResult known args) :
    functionArgs args v = functionArgs args w := by
  cases args with
  | none => rfl
  | some o =>
      cases o with
      | list items => rfl
      | temp value => rfl
      | stored root =>
          have read := same root (handed _ rfl)
          simp only [functionArgs, read]

theorem argument_congr {args : Option Obj} {list : List (Option Arg)} {a : Arg}
    (handed : ScopedResult known args) (found : functionArgs args w = .ok list)
    (member : some a ∈ list) : a.value v = a.value w := by
  cases functionArgs_source found member with
  | item inside => exact value_congr same _ (AllScoped.mem (handed _ rfl) inside)
  | temp => rfl
  | stored => exact same _ (handed _ rfl)
  | @storedItem root index items value _ _ =>
      have read := same root (handed _ rfl)
      simp only [Arg.value, read]

end Congruence

theorem prepareArgv_congr {libc : Libc} {v w : World} : ∀ {list : List (Option Arg)},
    (∀ a, some a ∈ list → a.value v = a.value w) →
    prepareArgv libc v list = prepareArgv libc w list := by
  intro list
  induction list with
  | nil => intro _; rfl
  | cons item rest ih =>
      intro same
      cases item with
      | none => rfl
      | some a =>
          simp only [prepareArgv]
          rw [same a List.mem_cons_self, ih fun b member => same b (List.mem_cons_of_mem _ member)]

theorem functionComplex_congr {libc : Libc} {v w : World} (f : Builtin) {list : List (Option Arg)}
    (same : ∀ a, some a ∈ list → a.value v = a.value w) :
    functionComplex libc f list v = functionComplex libc f list w := by
  unfold functionComplex
  split
  · rfl
  · rename_i a
    rw [same a (by simp)]
  · rfl
  · rename_i a
    rw [same a (by simp)]
  · rename_i type var
    rw [same type (by simp), same var (by simp)]
  · rfl
  · rfl

/-! ## Operators in two mailspecs

Whatever relates the mailspecs, and what they become when the same is written to both,
relates what operators and functions make of them. -/

section Related
variable {known : String → Prop} {v w : World} (same : SameReads known v w)
variable {rel : World → World → Prop} (related : rel v w)
variable (writes : ∀ root value, rel (v.write root value) (w.write root value))
include same related writes

theorem operation_related (libc : Libc) (stack : Int) (op : Operation) {left right : Option Obj}
    (first : ScopedResult known left) (second : ScopedResult known right) :
    Prog.SameResult rel (expOperation libc stack op left right v)
      (expOperation libc stack op left right w) := by
  have pack (x : Except Fault (Option Value)) :
      Prog.SameResult rel (x.map fun a => (a.map Obj.temp, v)) (x.map fun a => (a.map Obj.temp, w)) := by
    cases x with
    | error fault => rfl
    | ok value => exact ⟨rfl, related⟩
  unfold expOperation
  rw [operand_congr same first, operand_congr same second]
  cases op with
  | compare op => exact pack _
  | regex negated => exact pack _
  | isIn => exact pack _
  | math op =>
      simp only []
      split
      · rename_i address length
        split
        · unfold expAddrPrefix
          rw [value_congr same address (first address rfl), value_congr same length (second length rfl)]
          split
          · cases address with
            | stored root => exact ⟨rfl, writes root _⟩
            | temp value => exact ⟨rfl, related⟩
            | list items => exact ⟨rfl, related⟩
          · rfl
        · exact pack _
      · exact pack _

theorem overwrite_related {args : Option Obj} {list : List (Option Arg)} {a : Arg}
    (handed : ScopedResult known args) (found : functionArgs args w = .ok list)
    (member : some a ∈ list) (value : Value) : rel (a.overwrite value v) (a.overwrite value w) := by
  cases a with
  | item root index =>
      have read := same root (functionArgs_scoped found member rfl known handed)
      simp only [Arg.overwrite, read]
      exact writes root _
  | obj o =>
      cases o with
      | stored root => exact writes root value
      | temp _ => exact related
      | list items => exact related

variable {f : Builtin}
variable (draws : f = .random → v.seed = w.seed ∧ ∀ seed, rel { v with seed := seed } { w with seed := seed })
include draws

theorem functionSimple_related {libc : Libc} {args : Option Obj} {list : List (Option Arg)}
    (handed : ScopedResult known args) (found : functionArgs args w = .ok list)
    (argv : List (Option Bytes)) :
    Prog.SameResult rel (functionSimple libc f list argv v) (functionSimple libc f list argv w) := by
  have lowered (text : Bytes) : rel (stringTolower list text v) (stringTolower list text w) := by
    unfold stringTolower
    split
    · rename_i a rest
      rw [argument_congr same handed found List.mem_cons_self]
      split
      · exact overwrite_related same related writes handed found List.mem_cons_self _
      · exact related
    · exact related
  unfold functionSimple
  split
  case h_5 text => exact ⟨rfl, lowered text⟩
  case h_10 text => split <;> exact ⟨rfl, related⟩
  case h_12 =>
      obtain ⟨seed, drawn⟩ := draws rfl
      simp only [seed]
      exact ⟨rfl, drawn _⟩
  all_goals first | rfl | exact ⟨rfl, related⟩

theorem function_related (libc : Libc) {args : Option Obj} (handed : ScopedResult known args) :
    Prog.SameResult rel (expFunction libc f args v) (expFunction libc f args w) := by
  unfold expFunction
  rw [functionArgs_congr same handed]
  cases found : functionArgs args w with
  | error fault => rfl
  | ok list =>
      have values (a : Arg) (member : some a ∈ list) := argument_congr same handed found member
      simp only []
      split
      · rw [functionComplex_congr f values]
        cases functionComplex libc f list w with
        | error fault => rfl
        | ok result => exact ⟨rfl, related⟩
      · split
        · rw [prepareArgv_congr values]
          cases prepareArgv libc w list with
          | none => exact ⟨rfl, related⟩
          | some argv => exact functionSimple_related same related writes draws handed found argv
        · exact ⟨rfl, related⟩

end Related

section Answers
variable {known : String → Prop} {v w : World} (same : SameReads known v w)
include same

theorem operation_congr (libc : Libc) (stack : Int) (op : Operation) {left right : Option Obj}
    (first : ScopedResult known left) (second : ScopedResult known right) :
    (expOperation libc stack op left right v).map Prod.fst =
      (expOperation libc stack op left right w).map Prod.fst := by
  have answers : Prog.SameResult (fun _ _ => True) (expOperation libc stack op left right v)
      (expOperation libc stack op left right w) :=
    operation_related same trivial (fun _ _ => trivial) libc stack op first second
  exact answers.map_fst

theorem function_congr (libc : Libc) {f : Builtin} (drawn : f ≠ .random) {args : Option Obj}
    (handed : ScopedResult known args) :
    (expFunction libc f args v).map Prod.fst = (expFunction libc f args w).map Prod.fst := by
  have answers : Prog.SameResult (fun _ _ => True) (expFunction libc f args v) (expFunction libc f args w) :=
    function_related same trivial (fun _ _ => trivial) (fun random => (drawn random).elim) libc handed
  exact answers.map_fst

end Answers

/-- What a command does in place depends on the values of its operands, too. -/
theorem harmful_congr {known : String → Prop} {v w : World} (same : SameReads known v w) {c : Command}
    (handed : c.Scoped known) (harmful : Harmful c v) : Harmful c w := by
  unfold Harmful at harmful
  split at harmful
  · obtain ⟨root, o, a, n, rfl, rfl, address, length, changes⟩ := harmful
    refine ⟨root, o, a, n, rfl, rfl, ?_, ?_, changes⟩
    · rw [← same root (handed.1 _ rfl)]
      exact address
    · rw [← value_congr same o (handed.2 o rfl)]
      exact length
  · obtain ⟨a, root, text, found, points, string, changes⟩ := harmful
    rw [functionArgs_congr same handed] at found
    refine ⟨a, root, text, found, points, ?_, changes⟩
    rw [← argument_congr same handed found (List.mem_singleton.mpr rfl)]
    exact string
  · exact harmful.elim

end Mopher
