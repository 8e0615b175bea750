import Mopher.Eval.NullRead

/-!
# Operators that work in place

Two operations write through the pointers they get: `/` masks the address of its
left operand, and `lower` changes the text of its argument.  Each time a
variable is written like this it loses something, a bit or a capital letter, and
nothing in an evaluation gives it back.  `wear` counts what is left to lose, so
that a variable that was changed in place can never look untouched again.
-/

set_option autoImplicit false

namespace Mopher

/-! ## What there is to lose -/

def addrWear : Addr → Nat
  | .inet a => a.toNat
  | .inet6 a => (a.bytes.map UInt8.toNat).sum
  | .other _ => 0

def itemWear : Value → Nat
  | .scalar (.string s) => s.countP isUpper
  | .scalar (.addr a) => addrWear a
  | _ => 0

def wear : Value → Nat
  | .list items => (items.map fun item => (item.map itemWear).getD 0).sum
  | v => itemWear v

theorem isUpper_toLower (c : UInt8) : isUpper (toLower c) = false := by
  unfold toLower
  cases upper : isUpper c with
  | false => simp [upper]
  | true =>
      unfold isUpper at upper ⊢
      simp only [Bool.and_eq_true, decide_eq_true_eq, UInt8.le_iff_toNat_le] at upper
      simp only [if_true, Bool.and_eq_false_iff, decide_eq_false_iff_not, UInt8.le_iff_toNat_le,
        UInt8.toNat_add]
      have small : c.toNat + 32 < 256 := by
        have : c.toNat ≤ 90 := upper.2
        omega
      refine .inr ?_
      have low : 65 ≤ c.toNat := upper.1
      change ¬ (c.toNat + 32) % 256 ≤ 90
      rw [Nat.mod_eq_of_lt small]
      omega

/-- A text that changes had a capital letter, and has none afterwards. -/
theorem utilTolower_wear {text : Bytes} (changes : utilTolower text ≠ text) :
    (utilTolower text).countP isUpper < text.countP isUpper := by
  have gone : (utilTolower text).countP isUpper = 0 := by
    rw [List.countP_eq_zero]
    intro c member
    obtain ⟨d, _, rfl⟩ := List.mem_map.mp member
    simp [isUpper_toLower d]
  rw [gone, Nat.pos_iff_ne_zero]
  intro none'
  rw [List.countP_eq_zero] at none'
  apply changes
  unfold utilTolower
  conv_rhs => rw [← List.map_id text]
  apply List.map_congr_left
  intro c member
  simp [toLower, none' c member]

theorem clearBits_wear (bytes : List UInt8) : ∀ bits : Int,
    ((clearBits bits bytes).map UInt8.toNat).sum ≤ (bytes.map UInt8.toNat).sum ∧
      (clearBits bits bytes ≠ bytes →
        ((clearBits bits bytes).map UInt8.toNat).sum < (bytes.map UInt8.toNat).sum) := by
  induction bytes with
  | nil => intro bits; simp [clearBits]
  | cons byte rest ih =>
      intro bits
      unfold clearBits
      by_cases done : bits ≤ 0
      · simp [done]
      · simp only [done, if_false, List.map_cons, List.sum_cons]
        obtain ⟨restLe, restLt⟩ := ih (bits - 8)
        have byteLe : (if 8 < bits then (0 : UInt8)
            else UInt8.ofNat (byte.toNat >>> bits.toNat <<< bits.toNat)).toNat ≤ byte.toNat := by
          split
          · exact Nat.zero_le _
          · have cleared : byte.toNat >>> bits.toNat <<< bits.toNat ≤ byte.toNat := by
              rw [Nat.shiftRight_eq_div_pow, Nat.shiftLeft_eq]
              exact Nat.div_mul_le_self _ _
            have small := byte.toNat_lt
            rw [UInt8.toNat_ofNat', Nat.mod_eq_of_lt (by omega)]
            exact cleared
        refine ⟨by omega, fun changes => ?_⟩
        by_cases restSame : clearBits (bits - 8) rest = rest
        · have byteNe : (if 8 < bits then (0 : UInt8)
              else UInt8.ofNat (byte.toNat >>> bits.toNat <<< bits.toNat)).toNat ≠ byte.toNat := by
            intro same
            apply changes
            rw [restSame, UInt8.toNat_inj.mp same]
          omega
        · have := restLt restSame
          omega

theorem utilAddrPrefix_wear {a : Addr} {length : Int} (changes : utilAddrPrefix a length ≠ a) :
    addrWear (utilAddrPrefix a length) < addrWear a := by
  cases a with
  | other family => exact (changes rfl).elim
  | inet a =>
      unfold utilAddrPrefix at changes ⊢
      simp only [] at changes ⊢
      by_cases all : min (32 - Int.bmod length (2 ^ 32)) 32 ≤ 0
      · rw [if_pos all] at changes
        exact (changes rfl).elim
      · rw [if_neg all] at changes ⊢
        simp only [addrWear]
        have le := BitVec.toNat_and a
          (~~~((1#32 <<< ((min (32 - Int.bmod length (2 ^ 32)) 32).toNat % 32)) - 1))
        have bound : a.toNat &&& (~~~((1#32 <<<
            ((min (32 - Int.bmod length (2 ^ 32)) 32).toNat % 32)) - 1)).toNat ≤ a.toNat :=
          Nat.and_le_left
        refine lt_of_le_of_ne (by rw [le]; exact bound) fun same => changes ?_
        rw [BitVec.eq_of_toNat_eq same]
  | inet6 a =>
      unfold utilAddrPrefix at changes ⊢
      simp only [addrWear, List.map_reverse, List.sum_reverse] at changes ⊢
      have lost := (clearBits_wear a.bytes.reverse
        (min (128 - Int.bmod length (2 ^ 32)) 128)).2 ?_
      · simpa only [List.map_reverse, List.sum_reverse] using lost
      · intro same
        apply changes
        obtain ⟨bytes, size⟩ := a
        simp only [Addr.inet6.injEq, In6Addr.mk.injEq]
        rw [same, List.reverse_reverse]

/-! ## Commands that write in place -/

/-- `/` gets a pointer to a stored address, and the mask clears a bit of it. -/
def MasksStored (left right : Option Obj) (w : World) : Prop :=
  ∃ root o a n, left = some (.stored root) ∧ right = some o ∧ w.read root = .scalar (.addr a) ∧
    o.value w = .scalar (.int n) ∧ utilAddrPrefix a n ≠ a

/-- The stored variable that an argument is, or is an item of. -/
def Arg.root? : Arg → Option Root
  | .obj (.stored root) => some root
  | .obj _ => none
  | .item root _ => some root

/-- `lower` gets a pointer to a stored string with a capital letter in it. -/
def LowersStored (args : Option Obj) (w : World) : Prop :=
  ∃ a root text, functionArgs args w = .ok [some a] ∧ a.root? = some root ∧
    a.value w = .string text ∧ utilTolower text ≠ text

/-- The command changes a stored variable in place. -/
def Harmful (c : Command) (w : World) : Prop :=
  match c with
  | .operation (.math .div) left right => MasksStored left right w
  | .function .lower args => LowersStored args w
  | _ => False

/-- `known` are the symbols that pointers were handed out to. -/
def Root.Scoped (known : String → Prop) : Root → Prop
  | .symbol name => known name
  | _ => True

mutual

def Obj.Scoped (known : String → Prop) : Obj → Prop
  | .stored root => root.Scoped known
  | .temp _ => True
  | .list items => Obj.AllScoped known items

def Obj.AllScoped (known : String → Prop) : List (Option Obj) → Prop
  | [] => True
  | none :: rest => Obj.AllScoped known rest
  | some o :: rest => o.Scoped known ∧ Obj.AllScoped known rest

end

def ScopedResult (known : String → Prop) (o : Option Obj) : Prop :=
  ∀ x, o = some x → x.Scoped known

def Command.Scoped (known : String → Prop) : Command → Prop
  | .assign _ o => o.Scoped known
  | .truth o => o.Scoped known
  | .value o => o.Scoped known
  | .operation _ left right => ScopedResult known left ∧ ScopedResult known right
  | .function _ args => ScopedResult known args
  | _ => True

/-- No variable changed, though a random number may have been drawn. -/
def SameStore (w w' : World) : Prop := ∃ seed, w' = { w with seed := seed }

theorem SameStore.refl (w : World) : SameStore w w := ⟨w.seed, rfl⟩

/-- The command writes `new` to a stored variable that the command points to,
and something is lost by it. -/
structure Wears (c : Command) (w : World) (root : Root) (new : Value) : Prop where
  harmful : Harmful c w
  kind : new.type = (w.read root).type
  notInt : new.type ≠ .int
  lost : wear new < wear (w.read root)
  handed : ∀ known, c.Scoped known → root.Scoped known

theorem AllScoped.mem {known : String → Prop} {items : List (Option Obj)}
    (handed : Obj.AllScoped known items) {o : Obj} (member : some o ∈ items) : o.Scoped known := by
  induction items with
  | nil => cases member
  | cons item rest ih =>
      cases item with
      | none =>
          rcases List.mem_cons.mp member with same | later
          · cases same
          · exact ih handed later
      | some p =>
          rcases List.mem_cons.mp member with same | later
          · cases same
            exact handed.1
          · exact ih handed.2 later

/-- Writing what is there changes nothing. -/
theorem write_read {w : World} {root : Root} (exists' : (w.read root).type ≠ .null) :
    w.write root (w.read root) = w := by
  cases root with
  | symbol name =>
      have bound : some (w.read (.symbol name)) = w.symbols name := by
        cases found : w.symbols name with
        | none => simp [World.read, found] at exists'
        | some v => simp [World.read, found]
      simp only [World.write, vtableSet, bound, Function.update_eq_self]
  | «variable» name =>
      have bound : some (w.read (.variable name)) = w.vars name := by
        cases found : w.vars name with
        | none => simp [World.read, found] at exists'
        | some v => simp [World.read, found]
      simp only [World.write, vtableSet, bound, Function.update_eq_self]
  | constant id => simp only [World.write, World.read, Function.update_eq_self]
  | registered name => simp only [World.write, World.read, Function.update_eq_self]

@[simp] theorem read_write_same (w : World) (root : Root) (value : Value) :
    (w.write root value).read root = value := by
  cases root <;> simp [World.write, World.read]

theorem read_write_other (w : World) {root other : Root} (value : Value) (distinct : other ≠ root) :
    (w.write root value).read other = w.read other := by
  cases root <;> cases other <;> first
    | rfl
    | (simp only [World.write, World.read]
       simp_all [vtableSet, Function.update_of_ne])

theorem isSome_write {w : World} {root : Root} {new : Value} {name : String}
    (bound : (w.symbols name).isSome = true) : ((w.write root new).symbols name).isSome = true := by
  cases root with
  | symbol written =>
      by_cases same : name = written
      · simp [World.write, same]
      · simpa [World.write, same] using bound
  | «variable» _ => exact bound
  | constant _ => exact bound
  | registered _ => exact bound

section Effects
variable {libc : Libc}

theorem map_ok_world {α β : Type} {x : Except Fault α} {f : α → β} {w w' : World} {r : β}
    (returned : x.map (fun v => (f v, w)) = .ok (r, w')) : w' = w := by
  cases x with
  | error e => cases returned
  | ok v => cases returned; rfl

theorem prefix_effect {address length : Obj} {w w' : World} {r : Option Obj}
    (returned : expAddrPrefix address length w = .ok (r, w')) :
    (w' = w ∧ ¬ MasksStored (some address) (some length) w) ∨
      ∃ root new, Wears (.operation (.math .div) (some address) (some length)) w root new ∧
        w' = w.write root new := by
  unfold expAddrPrefix at returned
  split at returned
  · rename_i a n isAddr isInt
    cases address with
    | temp v =>
        cases returned
        refine .inl ⟨rfl, ?_⟩
        rintro ⟨root, o, a', n', same, _⟩
        cases same
    | list items => cases isAddr
    | stored root =>
        cases returned
        have value : w.read root = .scalar (.addr a) := isAddr
        by_cases same : utilAddrPrefix a n = a
        · refine .inl ⟨?_, ?_⟩
          · rw [same, ← value]
            exact write_read (by simp [value, Scalar.type])
          · rintro ⟨root', o, a', n', left, right, address', length', changes⟩
            cases left
            cases right
            rw [value] at address'
            rw [isInt] at length'
            cases address'
            cases length'
            exact changes same
        · refine .inr ⟨root, _, ?_, rfl⟩
          exact
            { harmful := ⟨root, length, a, n, rfl, rfl, value, isInt, same⟩
              kind := by simp [value, Scalar.type]
              notInt := by simp [Scalar.type]
              lost := by
                rw [value]
                exact utilAddrPrefix_wear same
              handed := fun known handed => handed.1 _ rfl }
  · cases returned

theorem operation_effect {stack : Int} {op : Operation} {left right : Option Obj} {w w' : World}
    {r : Option Obj} (returned : expOperation libc stack op left right w = .ok (r, w')) :
    (w' = w ∧ ¬ Harmful (.operation op left right) w) ∨
      ∃ root new, Wears (.operation op left right) w root new ∧ w' = w.write root new := by
  unfold expOperation at returned
  cases op with
  | compare op => exact .inl ⟨map_ok_world returned, id⟩
  | regex negated => exact .inl ⟨map_ok_world returned, id⟩
  | isIn => exact .inl ⟨map_ok_world returned, id⟩
  | math op =>
      cases op with
      | plus => exact .inl ⟨map_ok_world returned, id⟩
      | minus => exact .inl ⟨map_ok_world returned, id⟩
      | times => exact .inl ⟨map_ok_world returned, id⟩
      | mod => exact .inl ⟨map_ok_world returned, id⟩
      | div =>
          cases left with
          | none =>
              refine .inl ⟨map_ok_world returned, ?_⟩
              rintro ⟨root, o, a, n, same, _⟩
              cases same
          | some address =>
              cases right with
              | none =>
                  refine .inl ⟨map_ok_world returned, ?_⟩
                  rintro ⟨root, o, a, n, _, same, _⟩
                  cases same
              | some length =>
                  simp only [Option.map_some] at returned
                  by_cases typed : isPrefix (some (address.value w)) (some (length.value w)) = true
                  · rw [if_pos typed] at returned
                    exact prefix_effect returned
                  · rw [if_neg typed] at returned
                    refine .inl ⟨map_ok_world returned, ?_⟩
                    rintro ⟨root, o, a, n, left, right, isAddr, isInt, _⟩
                    cases left
                    cases right
                    have address' : (Obj.stored root).value w = .scalar (.addr a) := isAddr
                    exact typed (by simp [isPrefix, address', isInt, Scalar.type])

theorem wear_set {new v : Value} (lost : itemWear new < itemWear v) (items : List (Option Value)) :
    ∀ index : Nat, items[index]? = some (some v) →
      wear (.list (items.set index (some new))) < wear (.list items) := by
  simp only [wear]
  induction items with
  | nil => intro index found; cases found
  | cons item rest ih =>
      intro index found
      cases index with
      | zero =>
          cases found
          simpa using lost
      | succ index =>
          have later := ih index (by simpa using found)
          simpa using later

theorem mem_map_some {α β : Type} {f : α → β} {items : List (Option α)} {b : β}
    (member : some b ∈ items.map (Option.map f)) : ∃ a, some a ∈ items ∧ b = f a := by
  obtain ⟨item, inside, same⟩ := List.mem_map.mp member
  obtain ⟨a, rfl, eq⟩ := Option.map_eq_some_iff.mp same
  exact ⟨a, inside, eq.symm⟩

/-- Where an argument of a function comes from. -/
inductive ArgSource (w : World) : Option Obj → Arg → Prop where
  | item {items : List (Option Obj)} {o : Obj} (member : some o ∈ items) :
      ArgSource w (some (.list items)) (.obj o)
  | temp {value item : Value} : ArgSource w (some (.temp value)) (.obj (.temp item))
  | stored {root : Root} : ArgSource w (some (.stored root)) (.obj (.stored root))
  | storedItem {root : Root} {index : Nat} {items : List (Option Value)} {v : Value}
      (value : w.read root = .list items) (found : items[index]? = some (some v)) :
      ArgSource w (some (.stored root)) (.item root index)

theorem functionArgs_source {args : Option Obj} {w : World} {list : List (Option Arg)} {a : Arg}
    (found : functionArgs args w = .ok list) (member : some a ∈ list) : ArgSource w args a := by
  unfold functionArgs at found
  split at found
  · cases found
    cases member
  · cases found
    obtain ⟨o, inside, rfl⟩ := mem_map_some member
    exact .item inside
  · split at found
    · cases found
      obtain ⟨v, _, rfl⟩ := mem_map_some member
      exact .temp
    · cases found
    · cases found
      cases List.mem_singleton.mp member
      exact .temp
  · split at found
    · rename_i stored items value
      cases found
      obtain ⟨i, bound, same⟩ := List.mem_mapIdx.mp member
      obtain ⟨v, item, rfl⟩ := Option.map_eq_some_iff.mp same
      exact .storedItem value (by rw [List.getElem?_eq_getElem bound, item])
    · cases found
    · cases found
      cases List.mem_singleton.mp member
      exact .stored

/-- An argument points to what the evaluation handed out. -/
theorem functionArgs_scoped {args : Option Obj} {w : World} {list : List (Option Arg)} {a : Arg}
    {root : Root} (found : functionArgs args w = .ok list) (member : some a ∈ list)
    (points : a.root? = some root) (known : String → Prop) (handed : ScopedResult known args) :
    root.Scoped known := by
  cases functionArgs_source found member with
  | @item items o inside =>
      cases o with
      | temp v => cases points
      | list inner => cases points
      | stored root' =>
          cases points
          exact AllScoped.mem (handed _ rfl) inside
  | temp => cases points
  | stored =>
      cases points
      exact handed _ rfl
  | storedItem _ _ =>
      cases points
      exact handed _ rfl

/-- What `lower` does to the variable of its argument. -/
theorem overwrite_effect {args : Option Obj} {w : World} {a : Arg} {text : Bytes}
    (found : functionArgs args w = .ok [some a]) (string : a.value w = .string text) :
    (a.overwrite (.string (utilTolower text)) w = w ∧
        (a.root? = none ∨ utilTolower text = text)) ∨
      ∃ root new, Wears (.function .lower args) w root new ∧
        a.overwrite (.string (utilTolower text)) w = w.write root new := by
  have member : some a ∈ [some a] := List.mem_singleton.mpr rfl
  cases a with
  | obj o =>
      cases o with
      | temp v => exact .inl ⟨rfl, .inl rfl⟩
      | list items => exact .inl ⟨rfl, .inl rfl⟩
      | stored root =>
          have value : w.read root = .string text := string
          by_cases same : utilTolower text = text
          · refine .inl ⟨?_, .inr same⟩
            change w.write root (.string (utilTolower text)) = w
            rw [same, ← value]
            exact write_read (by simp [value, Scalar.type])
          · refine .inr ⟨root, _, ?_, rfl⟩
            exact
              { harmful := ⟨_, root, text, found, rfl, string, same⟩
                kind := by simp [value, Scalar.type]
                notInt := by simp [Scalar.type]
                lost := by
                  rw [value]
                  exact utilTolower_wear same
                handed := fun known handed => functionArgs_scoped found member rfl known handed }
  | item root index =>
      obtain ⟨items, v, value, at'⟩ : ∃ items v, w.read root = .list items ∧
          items[index]? = some (some v) := by
        cases functionArgs_source found member with
        | storedItem value at' => exact ⟨_, _, value, at'⟩
      have item : v = .string text := by
        have read : (items.getD index none).getD (.nil .null) = .string text := by
          simpa only [Arg.value, value, Value.items] using string
        simpa [List.getD_eq_getElem?_getD, at'] using read
      have written : (Arg.item root index).overwrite (.string (utilTolower text)) w =
          w.write root (.list (items.set index (some (.string (utilTolower text))))) := by
        simp only [Arg.overwrite, value, Value.items]
      rw [written]
      by_cases same : utilTolower text = text
      · refine .inl ⟨?_, .inr same⟩
        have unchanged : items.set index (some (.string (utilTolower text))) = items := by
          rw [same, ← item]
          obtain ⟨bound, there⟩ := List.getElem?_eq_some_iff.mp at'
          rw [← there, List.set_getElem_self]
        rw [unchanged, ← value]
        exact write_read (by simp [value])
      · refine .inr ⟨root, _, ?_, rfl⟩
        exact
          { harmful := ⟨_, root, text, found, rfl, string, same⟩
            kind := by simp [value]
            notInt := by simp
            lost := by
              rw [value]
              exact wear_set (by rw [item]; exact utilTolower_wear same) items index at'
            handed := fun known handed => functionArgs_scoped found member rfl known handed }

/-- The harmful calls have one argument, and it is a string. -/
theorem not_lowersStored {args : Option Obj} {w : World} {list : List (Option Arg)}
    (found : functionArgs args w = .ok list)
    (other : ∀ a text, list = [some a] → a.value w = .string text →
      a.root? = none ∨ utilTolower text = text) : ¬ LowersStored args w := by
  rintro ⟨a, root, text, same, points, string, changes⟩
  rw [found] at same
  cases same
  rcases other a text rfl string with temp | unchanged
  · rw [temp] at points
    cases points
  · exact changes unchanged

theorem string_of_data {v : Value} {text : Bytes} (isString : v.type = .string)
    (data : stringData libc v = some (some text)) : v = .string text := by
  rcases type_string isString with null | ⟨s, value⟩
  · rw [stringData_null (by simp [null])] at data
    cases data
  · rw [value] at data ⊢
    cases data
    rfl

theorem lower_effect {args : Option Obj} {w w' : World} {r : Option Obj}
    (returned : expFunction libc .lower args w = .ok (r, w')) :
    (w' = w ∧ ¬ LowersStored args w) ∨
      ∃ root new, Wears (.function .lower args) w root new ∧ w' = w.write root new := by
  unfold expFunction at returned
  cases found : functionArgs args w with
  | error fault => simp [found] at returned
  | ok list =>
      simp only [found, Builtin.argc?] at returned
      have harmless := not_lowersStored found
      by_cases single : list.length = 1
      · rw [if_pos single] at returned
        obtain ⟨item, rfl⟩ := List.length_eq_one_iff.mp single
        cases item with
        | none =>
            cases returned
            exact .inl ⟨rfl, harmless fun a text same => by cases same⟩
        | some a =>
            simp only [prepareArgv] at returned
            cases data : stringData libc (a.value w) with
            | none =>
                simp only [data] at returned
                cases returned
                refine .inl ⟨rfl, harmless fun b text same string => ?_⟩
                cases same
                rw [string] at data
                cases data
            | some text? =>
                simp only [data] at returned
                cases text? with
                | none =>
                    cases returned
                    refine .inl ⟨rfl, harmless fun b text same string => ?_⟩
                    cases same
                    rw [string] at data
                    cases data
                | some text =>
                    cases returned
                    unfold stringTolower
                    by_cases isString : (a.value w).type = .string
                    · simp only [isString, if_true]
                      have string := string_of_data isString data
                      rcases overwrite_effect found string with ⟨same, why⟩ | wears
                      · refine .inl ⟨same, harmless fun b text' eq string' => ?_⟩
                        cases eq
                        rw [string] at string'
                        cases string'
                        exact why
                      · exact .inr wears
                    · simp only [isString, if_false]
                      refine .inl ⟨trivial, harmless fun b text' same string => ?_⟩
                      cases same
                      exact (isString (by rw [string]; rfl)).elim
      · rw [if_neg single] at returned
        cases returned
        refine .inl ⟨rfl, harmless fun a text same => ?_⟩
        subst same
        exact (single rfl).elim

theorem function_effect {f : Builtin} {args : Option Obj} {w w' : World} {r : Option Obj}
    (returned : expFunction libc f args w = .ok (r, w')) :
    (SameStore w w' ∧ ¬ Harmful (.function f args) w) ∨
      ∃ root new, Wears (.function f args) w root new ∧ w' = w.write root new := by
  by_cases lower : f = .lower
  · subst lower
    rcases lower_effect returned with ⟨rfl, harmless⟩ | wears
    · exact .inl ⟨.refl _, harmless⟩
    · exact .inr wears
  · have harmless : ¬ Harmful (.function f args) w := by
      cases f <;> first | exact id | exact (lower rfl).elim
    refine .inl ⟨?_, harmless⟩
    unfold expFunction at returned
    cases found : functionArgs args w with
    | error fault => simp [found] at returned
    | ok list =>
        simp only [found] at returned
        cases argc : f.argc? with
        | none =>
            simp only [argc] at returned
            rw [map_ok_world returned]
            exact .refl w
        | some count =>
            simp only [argc] at returned
            split at returned
            · split at returned
              · cases returned; exact .refl w
              · unfold functionSimple at returned
                split at returned <;> first
                  | exact (lower rfl).elim
                  | (cases returned; exact ⟨_, rfl⟩)
                  | cases returned
                  | (split at returned <;> cases returned <;> exact .refl w)
            · cases returned; exact .refl w

/-- What a command does to the world: it looks a symbol up, assigns a variable,
wears a stored variable out, or leaves the variables alone. -/
theorem step_effect {env : Env} {c : Command} {w w' : World} {r : c.Response}
    (returned : step env c w = .ok (r, w')) :
    (∃ name, c = .symbol name ∧ w' = (aclSymbolGet worldOps env.registry w name).1) ∨
      (∃ name o, c = .assign name o) ∨ (SameStore w w' ∧ ¬ Harmful c w) ∨
        ∃ root new, Wears c w root new ∧ w' = w.write root new := by
  cases c with
  | symbol name =>
      cases returned
      exact .inl ⟨name, rfl, rfl⟩
  | assign name o => exact .inr (.inl ⟨name, o, rfl⟩)
  | operation op left right =>
      rcases operation_effect returned with ⟨rfl, harmless⟩ | wears
      · exact .inr (.inr (.inl ⟨.refl _, harmless⟩))
      · exact .inr (.inr (.inr wears))
  | function f args => exact .inr (.inr (function_effect returned))
  | visit e => cases returned; exact .inr (.inr (.inl ⟨.refl _, id⟩))
  | var name => cases returned; exact .inr (.inr (.inl ⟨.refl _, id⟩))
  | stage => cases returned; exact .inr (.inr (.inl ⟨.refl _, id⟩))
  | getsymval name => cases returned; exact .inr (.inr (.inl ⟨.refl _, id⟩))
  | isSet name => cases returned; exact .inr (.inr (.inl ⟨.refl _, id⟩))
  | truth o => cases returned; exact .inr (.inr (.inl ⟨.refl _, id⟩))
  | value o => cases returned; exact .inr (.inr (.inl ⟨.refl _, id⟩))

end Effects

end Mopher
