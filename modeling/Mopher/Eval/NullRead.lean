import Mopher.Eval.Acl

/-!
# Where a rule reads through a null pointer

Most operators look at `v_data` before they use it.  `ReadsNull` lists the ones
that do not, each with the operands that make it follow a null pointer, and
`AclReadsNull` adds the actions.  The lists are complete: `acl` follows a null
pointer exactly when it reaches something on them.
-/

set_option autoImplicit false

namespace Mopher

/-- The types whose data `var_compare` dereferences. -/
def dereferenced : VarType → Bool
  | .int => true
  | .float => true
  | .string => true
  | .blob => true
  | _ => false

section Conditions
variable (libc : Libc)

/-- A value can be compared as one of the given type. -/
def Castable (type : VarType) (v : Value) : Prop :=
  v.type = type ∨ (varCastCopy libc type v).isSome

/-- `var_compare` of a value that is not null with this item of a list. -/
def ItemReadsNull (needle item : Value) : Prop :=
  item.isNull = true ∧ dereferenced (maxType needle item) = true ∧
    Castable libc (maxType needle item) needle

/-- The loop of `exp_eval_in` gets to such an item. -/
def InReadsNull (needle : Value) : List (Option Value) → Int → Prop
  | [], _ => False
  | none :: _, _ => False
  | some item :: rest, cmp =>
      ItemReadsNull libc needle item ∨
        ∃ result, varCompare libc needle item = .ok result ∧ result.getD cmp ≠ 0 ∧
          InReadsNull needle rest (result.getD cmp)

/-- An argument is a null pointer, or one to a variable without data. -/
def MissingArg (w : World) (a : Option Arg) : Prop :=
  ∀ x, a = some x → (x.value w).isNull = true

/-- `strlen` and `strcmp` get as many arguments as they ask for, every one is a
string or can be made one, and one of them has no data. -/
def StringReadsNull (f : Builtin) (args : List (Option Arg)) (w : World) : Prop :=
  (f = .strlen ∨ f = .strcmp) ∧ f.argc? = some args.length ∧
    (prepareArgv libc w args).isSome = true ∧ ∃ a ∈ args, MissingArg w a

/-- `cast` to a type that is a null integer. -/
def CastReadsNull (f : Builtin) (args : List (Option Arg)) (w : World) : Prop :=
  f = .cast ∧ ∃ type var, args = [some type, some var] ∧ type.value w = .nil .int

def FunctionReadsNull (f : Builtin) (args : Option Obj) (w : World) : Prop :=
  (∃ o, args = some o ∧ o.value w = .nil .list) ∨
    ∃ list, functionArgs args w = .ok list ∧
      (StringReadsNull libc f list w ∨ CastReadsNull f list w)

/-- The operands of `/` are an address and a number, and one of them is null. -/
def PrefixReadsNull (address length : Value) : Prop :=
  address.type = .addr ∧ length.type = .int ∧ (address.isNull = true ∨ length.isNull = true)

/-- The command follows a null pointer. -/
def ReadsNull (stack : Int) (c : Command) (w : World) : Prop :=
  match c with
  | .operation .isIn (some needle) (some haystack) =>
      (needle.value w).isNull = false ∧
        ∃ items, haystack.value w = .list items ∧ InReadsNull libc (needle.value w) items stack
  | .operation (.math .div) (some address) (some length) =>
      PrefixReadsNull (address.value w) (length.value w)
  | .function f args => FunctionReadsNull libc f args w
  | _ => False

end Conditions

/-! ## Values -/

section Values
variable {libc : Libc}

theorem type_int {v : Value} (type : v.type = .int) : v = .nil .int ∨ ∃ n, v = .scalar (.int n) := by
  cases v with
  | nil t => exact .inl (congrArg Value.nil type)
  | list items => cases type
  | scalar data => cases data <;> first | exact .inr ⟨_, rfl⟩ | cases type

theorem type_addr {v : Value} (type : v.type = .addr) :
    v = .nil .addr ∨ ∃ a, v = .scalar (.addr a) := by
  cases v with
  | nil t => exact .inl (congrArg Value.nil type)
  | list items => cases type
  | scalar data => cases data <;> first | exact .inr ⟨_, rfl⟩ | cases type

theorem type_string {v : Value} (type : v.type = .string) :
    v = .nil .string ∨ ∃ s, v = .scalar (.string s) := by
  cases v with
  | nil t => exact .inl (congrArg Value.nil type)
  | list items => cases type
  | scalar data => cases data <;> first | exact .inr ⟨_, rfl⟩ | cases type

theorem varCopy_kind {v copy : Value} (copied : varCopy v = some copy) :
    copy.type = v.type ∧ copy.isNull = v.isNull := by
  cases v with
  | nil t => cases copied; exact ⟨rfl, rfl⟩
  | list items =>
      obtain ⟨copies, _, rfl⟩ := Option.map_eq_some_iff.mp copied
      exact ⟨rfl, rfl⟩
  | scalar data => cases data <;> first | (cases copied; exact ⟨rfl, rfl⟩) | cases copied

theorem varAsInt_kind {v u : Value} (made : varAsInt libc v = some u) :
    u.type = .int ∧ u.isNull = false := by
  unfold varAsInt at made
  split at made
  · cases made; exact ⟨rfl, rfl⟩
  · cases made; exact ⟨rfl, rfl⟩
  · split at made
    · cases made
    · cases made; exact ⟨rfl, rfl⟩
  · cases made

theorem varAsFloat_kind {v u : Value} (made : varAsFloat libc v = some u) :
    u.type = .float ∧ u.isNull = false := by
  unfold varAsFloat at made
  split at made
  · cases made; exact ⟨rfl, rfl⟩
  · cases made; exact ⟨rfl, rfl⟩
  · cases made

theorem varAsString_kind {v u : Value} (made : varAsString libc v = some u) :
    u.type = .string ∧ u.isNull = false := by
  obtain ⟨text, _, rfl⟩ := Option.map_eq_some_iff.mp made
  exact ⟨rfl, rfl⟩

theorem varAsBlob_kind {v u : Value} (made : varAsBlob libc v = some u) :
    u.type = .blob ∧ u.isNull = false := by
  unfold varAsBlob at made
  split at made
  · cases made; exact ⟨rfl, rfl⟩
  · cases made; exact ⟨rfl, rfl⟩
  · cases made; exact ⟨rfl, rfl⟩
  · cases made; exact ⟨rfl, rfl⟩
  · cases made

/-- A cast has the type that was asked for, and it is null exactly when the
value was. -/
theorem varCastCopy_kind {type : VarType} {v u : Value} (made : varCastCopy libc type v = some u) :
    u.type = type ∧ u.isNull = v.isNull := by
  unfold varCastCopy at made
  by_cases same : type = v.type
  · rw [if_pos same] at made
    rw [same]
    exact varCopy_kind made
  · rw [if_neg same] at made
    by_cases null : v.isNull = true
    · rw [if_pos null] at made
      cases made
      exact ⟨rfl, null.symm⟩
    · rw [if_neg null] at made
      rw [Bool.not_eq_true] at null
      rw [null]
      cases type with
      | int => exact varAsInt_kind made
      | float => exact varAsFloat_kind made
      | string => exact varAsString_kind made
      | blob => exact varAsBlob_kind made
      | null => cases made
      | table => cases made
      | list => cases made
      | addr => cases made
      | pointer => cases made
      | other code => cases made

/-- One side of `var_compare`, made the common type. -/
theorem asType_kind {type : VarType} {v u : Value}
    (made : (if v.type = type then some v else varCastCopy libc type v) = some u) :
    u.type = type ∧ u.isNull = v.isNull := by
  by_cases same : v.type = type
  · rw [if_pos same] at made
    cases made
    exact ⟨same, rfl⟩
  · rw [if_neg same] at made
    exact varCastCopy_kind made

theorem asType_isSome_iff (type : VarType) (v : Value) :
    (if v.type = type then some v else varCastCopy libc type v).isSome = true ↔
      Castable libc type v := by
  unfold Castable
  by_cases same : v.type = type
  · simp [same]
  · simp [same]

theorem compareData_nullRead_iff {type : VarType} {l r : Value} (left : l.type = type)
    (right : r.type = type) :
    compareData libc type l r = .error .nullRead ↔
      dereferenced type = true ∧ (l.isNull = true ∨ r.isNull = true) := by
  subst left
  cases l with
  | nil t =>
      cases r with
      | nil u => cases t <;> simp [compareData, dereferenced]
      | list items => cases right; simp [compareData, dereferenced]
      | scalar data =>
          cases data <;> cases right <;>
            simp [compareData, dereferenced]
  | list items => simp [compareData, dereferenced]
  | scalar data =>
      cases r with
      | nil u =>
          cases right
          cases data <;> simp [compareData, Scalar.type, dereferenced]
      | list items => cases data <;> cases right
      | scalar other =>
          cases data <;> cases other <;> cases right <;>
            simp [compareData, Scalar.type, dereferenced]

/-- `var_compare` follows a null pointer exactly when a side is null, both sides
can be made one type, and that type is dereferenced. -/
theorem varCompare_nullRead_iff (l r : Value) :
    varCompare libc l r = .error .nullRead ↔
      dereferenced (maxType l r) = true ∧ (l.isNull = true ∨ r.isNull = true) ∧
        Castable libc (maxType l r) l ∧ Castable libc (maxType l r) r := by
  rw [← asType_isSome_iff, ← asType_isSome_iff]
  unfold varCompare
  cases left : (if l.type = maxType l r then some l else varCastCopy libc (maxType l r) l) with
  | none => simp [left]
  | some u =>
      cases right : (if r.type = maxType l r then some r else varCastCopy libc (maxType l r) r) with
      | none => simp [left, right]
      | some v =>
          obtain ⟨uType, uNull⟩ := asType_kind left
          obtain ⟨vType, vNull⟩ := asType_kind right
          simp only [left, right, Option.isSome_some, and_true]
          rw [compareData_nullRead_iff uType vType, uNull, vNull]

/-- A null item can always be made the larger type. -/
theorem castable_of_null {type : VarType} {v : Value} (null : v.isNull = true) :
    Castable libc type v := by
  by_cases same : v.type = type
  · exact .inl same
  · refine .inr ?_
    simp [varCastCopy, Ne.symm same, null]

theorem itemReadsNull_iff {needle : Value} (item : Value) (present : needle.isNull = false) :
    varCompare libc needle item = .error .nullRead ↔ ItemReadsNull libc needle item := by
  rw [varCompare_nullRead_iff]
  unfold ItemReadsNull
  constructor
  · rintro ⟨read, null, castable, _⟩
    exact ⟨null.resolve_left (by simp [present]), read, castable⟩
  · rintro ⟨null, read, castable⟩
    exact ⟨read, .inr null, castable, castable_of_null null⟩

end Values

/-! ## Operators -/

section Operators
variable {libc : Libc}

theorem expCompare_no_nullRead (op : CompareOp) (l r : Option Value) :
    expCompare libc op l r ≠ .error .nullRead := by
  cases l with
  | none => simp [expCompare]
  | some l =>
      cases r with
      | none => simp [expCompare]
      | some r =>
          unfold expCompare
          simp only []
          by_cases null : (l.isNull || r.isNull) = true
          · simp [null]
          · simp only [null, Bool.false_eq_true, if_false]
            cases compared : varCompare libc l r with
            | error f =>
                intro same
                cases same
                obtain ⟨_, either, _⟩ := (varCompare_nullRead_iff l r).mp compared
                exact null (by rcases either with h | h <;> simp [h])
            | ok result =>
                cases result with
                | none => simp
                | some cmp =>
                    simp only []
                    split <;> simp

/-- The data of a value that is not null is there after a cast, too. -/
theorem stringData_present {v : Value} (present : v.isNull = false) {data : Option Bytes}
    (made : stringData libc v = some data) : ∃ text, data = some text := by
  unfold stringData at made
  by_cases string : v.type = .string
  · rw [if_pos string] at made
    cases made
    rcases type_string string with rfl | ⟨s, rfl⟩
    · cases present
    · exact ⟨s, rfl⟩
  · rw [if_neg string] at made
    obtain ⟨u, cast, rfl⟩ := Option.map_eq_some_iff.mp made
    obtain ⟨type, null⟩ := varCastCopy_kind cast
    rcases type_string type with rfl | ⟨s, rfl⟩
    · rw [present] at null
      cases null
    · exact ⟨s, rfl⟩

theorem stringData_null {v : Value} (null : v.isNull = true) : stringData libc v = some none := by
  cases v with
  | nil t =>
      unfold stringData
      by_cases string : t = .string
      · subst string
        rfl
      · simp [string, varCastCopy, Ne.symm string, Value.text?]
  | list items => cases null
  | scalar data => cases null

theorem expEvalRegex_no_nullRead (negated : Bool) (l r : Option Value) :
    expEvalRegex libc negated l r ≠ .error .nullRead := by
  cases l with
  | none => simp [expEvalRegex]
  | some l =>
      cases r with
      | none => simp [expEvalRegex]
      | some r =>
          unfold expEvalRegex
          simp only []
          by_cases null : (l.isNull || r.isNull) = true
          · simp [null]
          · simp only [null, Bool.false_eq_true, if_false]
            simp only [Bool.or_eq_true, not_or, Bool.not_eq_true] at null
            cases left : stringData libc l with
            | none => simp
            | some text =>
                cases right : stringData libc r with
                | none => simp
                | some pattern =>
                    obtain ⟨text, rfl⟩ := stringData_present null.1 left
                    obtain ⟨pattern, rfl⟩ := stringData_present null.2 right
                    simp only []
                    split <;> simp

theorem expMath_no_nullRead (op : MathOp) (l r : Option Value) :
    expMath libc op l r ≠ .error .nullRead := by
  cases l with
  | none => simp [expMath]
  | some l =>
      cases r with
      | none => simp [expMath]
      | some r =>
          unfold expMath
          simp only []
          split
          · split
            · unfold expMathInt
              split
              · cases op with
                | plus => simp
                | minus => simp
                | times => simp
                | div => simp only []; split <;> simp
                | mod => simp only []; split <;> simp
              · simp
            · unfold expMathFloat
              split
              · cases op <;> simp
              · simp
            · unfold expMathString
              cases op <;> simp
            · simp
          · simp

theorem inLoop_nullRead_iff {needle : Value} (present : needle.isNull = false)
    (items : List (Option Value)) : ∀ cmp : Int,
    inLoop libc needle items cmp = .error .nullRead ↔ InReadsNull libc needle items cmp := by
  induction items with
  | nil => intro cmp; simp [inLoop, InReadsNull]
  | cons item rest ih =>
      intro cmp
      cases item with
      | none => simp [inLoop, InReadsNull]
      | some v =>
          have this : varCompare libc needle v = .error .nullRead ↔ ItemReadsNull libc needle v :=
            itemReadsNull_iff v present
          simp only [inLoop, InReadsNull]
          cases compared : varCompare libc needle v with
          | error f =>
              rw [compared] at this
              simp only [reduceCtorEq, false_and, exists_false, or_false, ← this, Except.error.injEq]
          | ok result =>
              rw [compared] at this
              have notHere : ¬ ItemReadsNull libc needle v := fun reads => by cases this.mpr reads
              simp only [notHere, false_or, Except.ok.injEq, exists_eq_left']
              by_cases found : result.getD cmp = 0
              · simp [found]
              · simp [found, ih]

theorem map_nullRead_iff {α β : Type} {f : α → β} {x : Except Fault α} :
    x.map f = .error .nullRead ↔ x = .error .nullRead := by
  cases x <;> simp [Except.map]

theorem expEvalIn_nullRead_iff (stack : Int) (n h : Value) :
    expEvalIn libc stack (some n) (some h) = .error .nullRead ↔
      n.isNull = false ∧ ∃ items, h = .list items ∧ InReadsNull libc n items stack := by
  unfold expEvalIn
  by_cases null : n.isNull = true
  · simp [null]
  · rw [Bool.not_eq_true] at null
    cases h with
    | nil t => simp
    | scalar data => simp [null]
    | list items =>
        simp only [null, Value.isNull_list, Bool.or_self, Bool.false_eq_true, if_false, true_and,
          Value.list.injEq, exists_eq_left']
        rw [map_nullRead_iff, inLoop_nullRead_iff null]

theorem expAddrPrefix_nullRead_iff {address length : Obj} {w : World}
    (typed : isPrefix (some (address.value w)) (some (length.value w)) = true) :
    expAddrPrefix address length w = .error .nullRead ↔
      PrefixReadsNull (address.value w) (length.value w) := by
  simp only [isPrefix, Bool.and_eq_true, decide_eq_true_eq] at typed
  unfold expAddrPrefix PrefixReadsNull
  rcases type_addr typed.1 with a | ⟨a, a'⟩
  · simp [a, typed.2]
  · rcases type_int typed.2 with n | ⟨n, n'⟩
    · simp [a', n, Scalar.type]
    · simp [a', n']

theorem operation_nullRead_iff (stack : Int) (op : Operation) (left right : Option Obj) (w : World) :
    expOperation libc stack op left right w = .error .nullRead ↔
      ReadsNull libc stack (.operation op left right) w := by
  unfold expOperation
  cases op with
  | compare op =>
      simp only [ReadsNull, iff_false]
      exact fun reads => expCompare_no_nullRead op _ _ (map_nullRead_iff.mp reads)
  | regex negated =>
      simp only [ReadsNull, iff_false]
      exact fun reads => expEvalRegex_no_nullRead negated _ _ (map_nullRead_iff.mp reads)
  | isIn =>
      simp only [map_nullRead_iff]
      cases left with
      | none => simp [expEvalIn, ReadsNull]
      | some n =>
          cases right with
          | none => simp [expEvalIn, ReadsNull]
          | some h => exact expEvalIn_nullRead_iff stack _ _
  | math op =>
      have never (op : MathOp) (l r : Option Value) :
          (expMath libc op l r).map (fun v => (v.map Obj.temp, w)) ≠ .error .nullRead :=
        fun reads => expMath_no_nullRead op l r (map_nullRead_iff.mp reads)
      cases op with
      | div =>
          cases left with
          | none => simpa [ReadsNull] using never .div none _
          | some address =>
              cases right with
              | none => simpa [ReadsNull] using never .div _ none
              | some length =>
                  simp only [ReadsNull, Option.map_some]
                  by_cases typed : isPrefix (some (address.value w)) (some (length.value w)) = true
                  · rw [if_pos typed]
                    exact expAddrPrefix_nullRead_iff typed
                  · rw [if_neg typed]
                    refine ⟨fun reads => (never .div _ _ reads).elim, fun reads => ?_⟩
                    exact (typed (by simp [isPrefix, reads.1, reads.2.1])).elim
      | plus => simpa [ReadsNull] using never .plus _ _
      | minus => simpa [ReadsNull] using never .minus _ _
      | times => simpa [ReadsNull] using never .times _ _
      | mod => simpa [ReadsNull] using never .mod _ _

end Operators

/-! ## Functions -/

section Functions
variable {libc : Libc}

theorem functionArgs_nullRead_iff (args : Option Obj) (w : World) :
    functionArgs args w = .error .nullRead ↔ ∃ o, args = some o ∧ o.value w = .nil .list := by
  cases args with
  | none => simp [functionArgs]
  | some o =>
      simp only [Option.some.injEq, exists_eq_left']
      cases o with
      | list items => simp [functionArgs, Obj.value]
      | temp value =>
          unfold functionArgs Obj.value
          simp only []
          split <;> simp_all
      | stored root =>
          unfold functionArgs Obj.value
          simp only []
          split <;> simp_all

theorem functionArgs_error {args : Option Obj} {w : World} {f : Fault}
    (faulted : functionArgs args w = .error f) : f = .nullRead := by
  unfold functionArgs at faulted
  repeat' split at faulted
  all_goals first | cases faulted; rfl | cases faulted

theorem prepareArgv_length {w : World} : ∀ {args : List (Option Arg)} {argv : List (Option Bytes)},
    prepareArgv libc w args = some argv → argv.length = args.length := by
  intro args
  induction args with
  | nil => intro argv made; cases made; rfl
  | cons a rest ih =>
      intro argv made
      cases a with
      | none => cases made; simp
      | some x =>
          unfold prepareArgv at made
          split at made
          · rename_i data tail _ prepared
            cases made
            simp [ih prepared]
          · cases made

/-- An entry of `argv` is null exactly when an argument has no data. -/
theorem prepareArgv_none_iff {w : World} : ∀ {args : List (Option Arg)} {argv : List (Option Bytes)},
    prepareArgv libc w args = some argv → (none ∈ argv ↔ ∃ a ∈ args, MissingArg w a) := by
  intro args
  induction args with
  | nil => intro argv made; cases made; simp
  | cons a rest ih =>
      intro argv made
      cases a with
      | none =>
          cases made
          simp only [List.mem_replicate, ne_eq, Nat.add_eq_zero_iff, List.length_eq_zero_iff,
            one_ne_zero, and_false, not_false_eq_true, and_self, List.mem_cons, true_iff]
          exact ⟨none, .inl rfl, fun x impossible => by cases impossible⟩
      | some x =>
          unfold prepareArgv at made
          split at made
          · rename_i data tail text prepared
            cases made
            have here : data = none ↔ MissingArg w (some x) := by
              unfold MissingArg
              simp only [Option.some.injEq, forall_eq']
              by_cases null : (x.value w).isNull = true
              · rw [stringData_null null] at text
                cases text
                simp [null]
              · rw [Bool.not_eq_true] at null
                obtain ⟨s, rfl⟩ := stringData_present null text
                simp [null]
            simp only [List.mem_cons, exists_eq_or_imp, ih prepared, ← here]
            exact or_congr_left eq_comm
          · cases made

theorem functionSimple_nullRead_iff {f : Builtin} {args : List (Option Arg)}
    {argv : List (Option Bytes)} {w : World} (argc : f.argc? = some args.length)
    (prepared : prepareArgv libc w args = some argv) :
    functionSimple libc f args argv w = .error .nullRead ↔
      (f = .strlen ∨ f = .strcmp) ∧ none ∈ argv := by
  have length : f.argc? = some argv.length := by rw [argc, prepareArgv_length prepared]
  cases f with
  | strlen =>
      obtain ⟨a, rfl⟩ := List.length_eq_one_iff.mp (Option.some.inj length).symm
      cases a <;> simp [functionSimple]
  | strcmp =>
      obtain ⟨a, b, rfl⟩ := List.length_eq_two.mp (Option.some.inj length).symm
      cases a <;> cases b <;> simp [functionSimple]
  | base64Decode =>
      obtain ⟨a, rfl⟩ := List.length_eq_one_iff.mp (Option.some.inj length).symm
      cases a with
      | none => simp [functionSimple]
      | some text => simp only [functionSimple]; split <;> simp
  | lower =>
      obtain ⟨a, rfl⟩ := List.length_eq_one_iff.mp (Option.some.inj length).symm
      cases a <;> simp [functionSimple]
  | mailaddr =>
      obtain ⟨a, rfl⟩ := List.length_eq_one_iff.mp (Option.some.inj length).symm
      cases a <;> simp [functionSimple]
  | base64 =>
      obtain ⟨a, rfl⟩ := List.length_eq_one_iff.mp (Option.some.inj length).symm
      cases a <;> simp [functionSimple]
  | random => simp [functionSimple]
  | type => cases length
  | size => cases length
  | cast => cases length
  | nil => cases length
  | fail => cases length

theorem cast_nullRead_iff (type var : Arg) (w : World) :
    functionComplex libc .cast [some type, some var] w = .error .nullRead ↔
      type.value w = .nil .int := by
  simp only [functionComplex]
  split <;> simp_all

theorem functionComplex_nullRead_iff (f : Builtin) (args : List (Option Arg)) (w : World) :
    functionComplex libc f args w = .error .nullRead ↔ CastReadsNull f args w := by
  by_cases cast : f = .cast
  · subst cast
    rcases args with _ | ⟨a, _ | ⟨b, _ | ⟨c, rest⟩⟩⟩
    · simp [functionComplex, CastReadsNull]
    · cases a <;> simp [functionComplex, CastReadsNull]
    · cases a with
      | none => simp [functionComplex, CastReadsNull]
      | some type =>
          cases b with
          | none => simp [functionComplex, CastReadsNull]
          | some var =>
              rw [cast_nullRead_iff]
              simp [CastReadsNull]
    · simp [functionComplex, CastReadsNull]
  · have never : functionComplex libc f args w ≠ .error .nullRead := by
      unfold functionComplex
      split <;> simp_all
    simp [CastReadsNull, cast, never]

theorem function_nullRead_iff (f : Builtin) (args : Option Obj) (w : World) :
    expFunction libc f args w = .error .nullRead ↔ FunctionReadsNull libc f args w := by
  unfold expFunction FunctionReadsNull
  rw [← functionArgs_nullRead_iff]
  cases found : functionArgs args w with
  | error fault => simp [functionArgs_error found]
  | ok list =>
      simp only [reduceCtorEq, false_or, Except.ok.injEq, exists_eq_left']
      cases argc : f.argc? with
      | none =>
          simp only [map_nullRead_iff]
          rw [functionComplex_nullRead_iff]
          have notString : ¬ StringReadsNull libc f list w := by
            rintro ⟨_, some', _⟩
            rw [argc] at some'
            cases some'
          simp [notString]
      | some count =>
          have notCast : ¬ CastReadsNull f list w := by
            rintro ⟨rfl, _⟩
            cases argc
          simp only [notCast, or_false, StringReadsNull, argc, Option.some.injEq]
          by_cases length : list.length = count
          · rw [if_pos length]
            subst length
            cases prepared : prepareArgv libc w list with
            | none => simp
            | some argv =>
                simp only [functionSimple_nullRead_iff argc prepared, Option.isSome_some, true_and,
                  prepareArgv_none_iff prepared]
          · rw [if_neg length]
            simp [Ne.symm length]

end Functions

/-! ## Commands, actions and runs -/

/-- A command of an expression follows a null pointer exactly when it is on the
list. -/
theorem step_nullRead_iff (env : Env) (c : Command) (w : World) :
    step env c w = .error .nullRead ↔ ReadsNull env.libc env.stack c w := by
  cases c with
  | operation op left right => exact operation_nullRead_iff env.stack op left right w
  | function f args => exact function_nullRead_iff f args w
  | visit e => simp [step, ReadsNull]
  | symbol name => simp [step, ReadsNull]
  | var name => simp [step, ReadsNull]
  | stage => simp [step, ReadsNull]
  | getsymval name => simp [step, ReadsNull]
  | isSet name => simp [step, ReadsNull]
  | assign name o => simp [step, ReadsNull]
  | truth o => simp [step, ReadsNull]
  | value o => simp [step, ReadsNull]

/-- Besides the operators and functions of expressions: a log level that is
null, and a `tarpit` delay that is a null integer. -/
def AclReadsNull (env : AclEnv) (c : AclCommand) (w : World) : Prop :=
  match c with
  | .exp c => ReadsNull env.libc env.stack c w
  | .logLevel o => (o.value w).isNull = true
  | .tarpit o => o.value w = .nil .int
  | _ => False

theorem varIntval_nullRead_iff (libc : Libc) (v : Value) :
    varIntval libc v = .error .nullRead ↔ v.isNull = true := by
  unfold varIntval
  by_cases int : v.type = .int
  · rw [if_pos int]
    rcases type_int int with rfl | ⟨n, rfl⟩
    · simp
    · simp
  · rw [if_neg int]
    cases made : varCastCopy libc .int v with
    | none =>
        have present : v.isNull ≠ true := by
          intro null
          rw [varCastCopy, if_neg (Ne.symm int), if_pos null] at made
          cases made
        simp [present]
    | some u =>
        obtain ⟨type, null⟩ := varCastCopy_kind made
        rw [← null]
        rcases type_int type with rfl | ⟨n, rfl⟩
        · simp
        · simp

theorem tarpit_nullRead_iff (env : AclEnv) (v : Value) (w : World) :
    tarpit env v w = .error .nullRead ↔ v = .nil .int := by
  unfold tarpit
  split
  · rename_i delay
    simp only [reduceCtorEq, iff_false]
    split
    · simp
    · split
      · simp
      · split <;> simp
  · simp
  · rename_i notInt notNull
    simp only [reduceCtorEq, false_iff]
    exact fun null => notNull null

theorem aclStep_nullRead_iff (env : AclEnv) (c : AclCommand) (w : World) :
    aclStep env c w = .error .nullRead ↔ AclReadsNull env c w := by
  cases c with
  | exp c => exact step_nullRead_iff env.toEnv c w
  | logLevel o =>
      simp only [aclStep, AclReadsNull, map_nullRead_iff]
      exact varIntval_nullRead_iff env.libc (o.value w)
  | tarpit o => exact tarpit_nullRead_iff env (o.value w) w
  | log level o => simp [aclStep, AclReadsNull]
  | external action stage => simp [aclStep, AclReadsNull]
  | setReply code xcode message => simp [aclStep, AclReadsNull]
  | matched stage rule filename line response => simp [aclStep, AclReadsNull]

/-- One table of rules, and actions that do nothing. -/
def oneTable (rules : List AclRule) : AclEnv where
  toEnv := plainEnv
  tables _ := some rules
  logLevel := 3
  sleep _ _ := .done
  external _ _ w := (w, .none)
  setReply _ _ _ _ := true

/-- A rule with a condition that accepts, and one without that acts. -/
def acceptIf (condition : Exp) : AclRule := ⟨some condition, .plain .accept, none, [], 1⟩

def always (action : AclAction) : AclRule := ⟨none, action, none, [], 1⟩

end Mopher
