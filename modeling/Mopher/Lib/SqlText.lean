import Mathlib.Data.List.Basic

/-!
# SQL statements as text

The tokens of SQL, in which a quotation mark inside of quotes is written twice, and a
grammar of simple statements.  A text is scanned one character at a time, so what a text
means behind another one depends on the state of the scanner only.

Every statement is printed in one way; what is printed is read back.
-/

set_option autoImplicit false

namespace Mopher.SqlText

/-- The characters of a text in a program's source. -/
def ascii (text : String) : List UInt8 := text.toList.map fun c => UInt8.ofNat c.toNat

/-! ## Tokens -/

inductive Quote where
  | name
  | literal
deriving DecidableEq

def Quote.mark : Quote → UInt8
  | .name => 34
  | .literal => 39

inductive Token where
  | quoted (quote : Quote) (text : List UInt8)
  | word (text : List UInt8)
  | sign (c : UInt8)
deriving DecidableEq

def isWordChar (c : UInt8) : Bool :=
  (48 ≤ c && c ≤ 57) || (65 ≤ c && c ≤ 90) || (97 ≤ c && c ≤ 122) || c == 95

/-- Behind a token, in a word, in quotes, or at a mark that ends them unless it comes twice. -/
inductive Lexer where
  | blank
  | word (text : List UInt8)
  | inside (quote : Quote) (text : List UInt8)
  | closed (quote : Quote) (text : List UInt8)
deriving DecidableEq

/-- The first character of a token. -/
def fresh (c : UInt8) : Lexer × List Token :=
  if c = 32 then (.blank, [])
  else if c = 34 then (.inside .name [], [])
  else if c = 39 then (.inside .literal [], [])
  else if isWordChar c then (.word [c], [])
  else (.blank, [.sign c])

def feed : Lexer → UInt8 → Lexer × List Token
  | .blank, c => fresh c
  | .word text, c =>
      if isWordChar c then (.word (text ++ [c]), [])
      else ((fresh c).1, .word text :: (fresh c).2)
  | .inside quote text, c =>
      if c = quote.mark then (.closed quote text, []) else (.inside quote (text ++ [c]), [])
  | .closed quote text, c =>
      if c = quote.mark then (.inside quote (text ++ [c]), [])
      else ((fresh c).1, .quoted quote text :: (fresh c).2)

def scan : Lexer → List UInt8 → Lexer × List Token
  | s, [] => (s, [])
  | s, c :: rest =>
      let next := feed s c
      let behind := scan next.1 rest
      (behind.1, next.2 ++ behind.2)

/-- The token that the end of the text completes; there is no result inside of quotes. -/
def Lexer.finish : Lexer → Option (List Token)
  | .blank => some []
  | .word text => some [.word text]
  | .inside _ _ => none
  | .closed quote text => some [.quoted quote text]

def tokens (text : List UInt8) : Option (List Token) :=
  (scan .blank text).1.finish.map ((scan .blank text).2 ++ ·)

/-! ## Statements -/

inductive Value where
  | null
  | string (text : List UInt8)
deriving DecidableEq

/-- `column = value`, or `column = column + value`. -/
structure Equation where
  column : List UInt8
  added : Bool
  value : Value
deriving DecidableEq

inductive Statement where
  | insert (table : List UInt8) (columns : List (List UInt8)) (values : List Value)
  | update (table : List UInt8) (set where_ : List Equation)
  | select (columns : List (List UInt8)) (table : List UInt8) (where_ : List Equation)
  | delete (table : List UInt8) (where_ : List Equation)
  | deleteBelow (table column limit : List UInt8)
  | create (table : List UInt8) (columns : List (List UInt8 × List UInt8)) (keys : List (List UInt8))
deriving DecidableEq

/-! ## The text of a statement -/

section Print

/-- Every mark twice. -/
def escape (mark : UInt8) (text : List UInt8) : List UInt8 :=
  text.flatMap fun c => if c = mark then [c, c] else [c]

def Quote.print (quote : Quote) (text : List UInt8) : List UInt8 :=
  quote.mark :: escape quote.mark text ++ [quote.mark]

def Value.print : Value → List UInt8
  | .null => ascii "NULL"
  | .string text => Quote.literal.print text

def Equation.print (e : Equation) : List UInt8 :=
  Quote.name.print e.column ++ ascii "=" ++
    (if e.added then Quote.name.print e.column ++ ascii "+" else []) ++ e.value.print

/-- Texts with something between them. -/
def separated {α : Type} (between : List α) : List (List α) → List α
  | [] => []
  | [text] => text
  | text :: rest => text ++ between ++ separated between rest

def names (columns : List (List UInt8)) : List UInt8 := separated (ascii ",") (columns.map Quote.name.print)

def conditions (where_ : List Equation) : List UInt8 := separated (ascii " AND ") (where_.map Equation.print)

def Statement.print : Statement → List UInt8
  | .insert table columns values =>
      ascii "INSERT INTO " ++ Quote.name.print table ++ ascii " (" ++ names columns ++ ascii ") VALUES (" ++
        separated (ascii ",") (values.map Value.print) ++ ascii ")"
  | .update table set where_ =>
      ascii "UPDATE " ++ Quote.name.print table ++ ascii " SET " ++
        separated (ascii ",") (set.map Equation.print) ++ ascii " WHERE " ++ conditions where_
  | .select columns table [] => ascii "SELECT " ++ names columns ++ ascii " FROM " ++ Quote.name.print table
  | .select columns table where_ =>
      ascii "SELECT " ++ names columns ++ ascii " FROM " ++ Quote.name.print table ++ ascii " WHERE " ++
        conditions where_
  | .delete table where_ =>
      ascii "DELETE FROM " ++ Quote.name.print table ++ ascii " WHERE " ++ conditions where_
  | .deleteBelow table column limit =>
      ascii "DELETE FROM " ++ Quote.name.print table ++ ascii " WHERE " ++ Quote.name.print column ++
        ascii " < " ++ limit
  | .create table columns keys =>
      ascii "CREATE TABLE " ++ Quote.name.print table ++ ascii " (" ++
        separated (ascii ",") (columns.map fun c => Quote.name.print c.1 ++ ascii " " ++ c.2) ++
        ascii ", PRIMARY KEY(" ++ names keys ++ ascii "))"

end Print

/-! ## What is scanned behind what -/

theorem scan_append (s : Lexer) (front back : List UInt8) :
    scan s (front ++ back) =
      ((scan (scan s front).1 back).1, (scan s front).2 ++ (scan (scan s front).1 back).2) := by
  induction front generalizing s with
  | nil => rfl
  | cons c front ih =>
      simp only [List.cons_append, scan, ih, List.append_assoc]

/-- The text has these tokens, the last of which may go on. -/
def Spells (text : List UInt8) (ts : List Token) : Prop :=
  ∃ last, (scan .blank text).1.finish = some last ∧ (scan .blank text).2 ++ last = ts

/-- The text has these tokens, and nothing of them goes on. -/
def Starts (text : List UInt8) (ts : List Token) : Prop := scan .blank text = (.blank, ts)

/-- The text has these tokens behind whatever is spelled out. -/
structure Breaks (text : List UInt8) (ts : List Token) : Prop where
  starts : Starts text ts
  head : ∃ c rest, text = c :: rest ∧ isWordChar c = false ∧ c ≠ 34 ∧ c ≠ 39

instance (text : List UInt8) (ts : List Token) : Decidable (Starts text ts) :=
  inferInstanceAs (Decidable (_ = _))

theorem tokens_of_spells {text : List UInt8} {ts : List Token} (spells : Spells text ts) :
    tokens text = some ts := by
  obtain ⟨last, finished, rfl⟩ := spells
  rw [tokens, finished]
  rfl

theorem feed_break {s : Lexer} {c : UInt8} {last : List Token} (finished : s.finish = some last)
    (noWord : isWordChar c = false) (noName : c ≠ 34) (noLiteral : c ≠ 39) :
    feed s c = ((fresh c).1, last ++ (fresh c).2) := by
  cases s with
  | blank =>
      cases finished
      rfl
  | word text =>
      cases finished
      simp [feed, noWord]
  | inside quote text => cases finished
  | closed quote text =>
      cases finished
      have other : c ≠ quote.mark := by cases quote <;> assumption
      simp [feed, other]

/-- What is spelled is complete when a break follows. -/
theorem scan_break {text between : List UInt8} {ts breaks : List Token} (spells : Spells text ts)
    (isBreak : Breaks between breaks) : scan .blank (text ++ between) = (.blank, ts ++ breaks) := by
  obtain ⟨last, finished, rfl⟩ := spells
  obtain ⟨c, rest, rfl, noWord, noName, noLiteral⟩ := isBreak.head
  have alone := isBreak.starts
  simp only [Starts, scan, feed] at alone
  rw [scan_append]
  simp only [scan, feed_break finished noWord noName noLiteral]
  rw [Prod.mk.injEq] at alone ⊢
  refine ⟨alone.1, ?_⟩
  rw [← alone.2]
  simp only [List.append_assoc]

theorem Spells.ends {text between : List UInt8} {ts breaks : List Token} (spells : Spells text ts)
    (isBreak : Breaks between breaks) : Starts (text ++ between) (ts ++ breaks) :=
  scan_break spells isBreak

theorem Starts.append {front back : List UInt8} {ts us : List Token} (first : Starts front ts)
    (second : Starts back us) : Starts (front ++ back) (ts ++ us) := by
  rw [Starts] at first second ⊢
  rw [scan_append, first, second]

theorem Starts.spells {front back : List UInt8} {ts us : List Token} (first : Starts front ts)
    (second : Spells back us) : Spells (front ++ back) (ts ++ us) := by
  obtain ⟨last, finished, rfl⟩ := second
  rw [Starts] at first
  refine ⟨last, ?_, ?_⟩
  · rw [scan_append, first]
    exact finished
  · rw [scan_append, first, List.append_assoc]

theorem Starts.complete {text : List UInt8} {ts : List Token} (starts : Starts text ts) :
    Spells text ts := by
  rw [Starts] at starts
  exact ⟨[], by rw [starts]; rfl, by rw [starts, List.append_nil]⟩

theorem Spells.between {front sep back : List UInt8} {ts us vs : List Token} (first : Spells front ts)
    (isBreak : Breaks sep us) (second : Spells back vs) :
    Spells (front ++ sep ++ back) (ts ++ us ++ vs) :=
  (first.ends isBreak).spells second

/-- Induction on the texts. -/
theorem spells_separated {sep : List UInt8} {us : List Token} (isBreak : Breaks sep us) {α : Type}
    (print : α → List UInt8) (ts : α → List Token) (items : List α) (some' : items ≠ [])
    (spells : ∀ item ∈ items, Spells (print item) (ts item)) :
    Spells (separated sep (items.map print)) (separated us (items.map ts)) := by
  induction items with
  | nil => exact absurd rfl some'
  | cons item rest ih =>
      have first := spells item List.mem_cons_self
      cases rest with
      | nil => exact first
      | cons next rest =>
          apply first.between isBreak
          apply ih (List.cons_ne_nil _ _)
          intro other inside
          exact spells other (List.mem_cons_of_mem _ inside)

/-! ## Texts in quotes -/

theorem scan_escape (quote : Quote) (text front : List UInt8) :
    scan (.inside quote front) (escape quote.mark text) = (.inside quote (front ++ text), []) := by
  induction text generalizing front with
  | nil => simp [escape, scan]
  | cons c text ih =>
      rw [escape, List.flatMap_cons, scan_append]
      by_cases marked : c = quote.mark
      · have twice : scan (.inside quote front) [c, c] = (.inside quote (front ++ [c]), []) := by
          simp [scan, feed, marked]
        rw [if_pos marked, twice]
        have behind := ih (front ++ [c])
        rw [escape, List.append_assoc] at behind
        simp only [behind, List.singleton_append, List.nil_append]
      · have once : scan (.inside quote front) [c] = (.inside quote (front ++ [c]), []) := by
          simp [scan, feed, marked]
        rw [if_neg marked, once]
        have behind := ih (front ++ [c])
        rw [escape, List.append_assoc] at behind
        simp only [behind, List.singleton_append, List.nil_append]

theorem spells_quoted (quote : Quote) (text : List UInt8) :
    Spells (quote.print text) [.quoted quote text] := by
  have opened : scan .blank [quote.mark] = (.inside quote [], []) := by cases quote <;> rfl
  have whole : scan .blank (quote.print text) = (.closed quote text, []) := by
    rw [Quote.print, ← List.singleton_append, List.append_assoc, scan_append, opened, scan_append, scan_escape]
    simp [scan, feed]
  exact ⟨[.quoted quote text], by rw [whole]; rfl, by rw [whole]; rfl⟩

/-! ## The tokens of a statement -/

def keyword (text : String) : Token := .word (ascii text)

def named (column : List UInt8) : List Token := [.quoted .name column]

def Value.tokens : Value → List Token
  | .null => [keyword "NULL"]
  | .string text => [.quoted .literal text]

def Equation.tokens (e : Equation) : List Token :=
  named e.column ++ [.sign 61] ++ (if e.added then named e.column ++ [.sign 43] else []) ++ e.value.tokens

def comma : List Token := [.sign 44]

def conjunction : List Token := [keyword "AND"]

def nameTokens (columns : List (List UInt8)) : List Token := separated comma (columns.map named)

def conditionTokens (where_ : List Equation) : List Token :=
  separated conjunction (where_.map Equation.tokens)

def columnTokens (c : List UInt8 × List UInt8) : List Token := named c.1 ++ [] ++ [.word c.2]

def Statement.tokens : Statement → List Token
  | .insert table columns values =>
      [keyword "INSERT", keyword "INTO"] ++ named table ++ [.sign 40] ++ nameTokens columns ++
        [.sign 41, keyword "VALUES", .sign 40] ++ separated comma (values.map Value.tokens) ++ [.sign 41]
  | .update table set where_ =>
      [keyword "UPDATE"] ++ named table ++ [keyword "SET"] ++ separated comma (set.map Equation.tokens) ++
        [keyword "WHERE"] ++ conditionTokens where_
  | .select columns table [] => [keyword "SELECT"] ++ nameTokens columns ++ [keyword "FROM"] ++ named table
  | .select columns table where_ =>
      [keyword "SELECT"] ++ nameTokens columns ++ [keyword "FROM"] ++ named table ++ [keyword "WHERE"] ++
        conditionTokens where_
  | .delete table where_ =>
      [keyword "DELETE", keyword "FROM"] ++ named table ++ [keyword "WHERE"] ++ conditionTokens where_
  | .deleteBelow table column limit =>
      [keyword "DELETE", keyword "FROM"] ++ named table ++ [keyword "WHERE"] ++ named column ++ [.sign 60] ++
        [.word limit]
  | .create table columns keys =>
      [keyword "CREATE", keyword "TABLE"] ++ named table ++ [.sign 40] ++
        separated comma (columns.map columnTokens) ++
        [.sign 44, keyword "PRIMARY", keyword "KEY", .sign 40] ++ nameTokens keys ++ [.sign 41, .sign 41]

/-- A word on its own. -/
structure IsWord (text : List UInt8) : Prop where
  some : text ≠ []
  chars : ∀ c ∈ text, isWordChar c = true

/-- A statement in which nothing is missing. -/
def Statement.Complete : Statement → Prop
  | .insert _ columns values => columns ≠ [] ∧ values ≠ []
  | .update _ set where_ => set ≠ [] ∧ where_ ≠ []
  | .select columns _ _ => columns ≠ []
  | .delete _ where_ => where_ ≠ []
  | .deleteBelow _ _ limit => IsWord limit
  | .create _ columns keys => columns ≠ [] ∧ keys ≠ [] ∧ ∀ c ∈ columns, IsWord c.2

/-- A separator breaks what it follows. -/
theorem breaks_of {text : List UInt8} {ts : List Token} (starts : Starts text ts) {c : UInt8}
    (head : text.head? = some c) (apart : (isWordChar c || c == 34 || c == 39) = false) : Breaks text ts := by
  simp only [Bool.or_eq_false_iff, beq_eq_false_iff_ne] at apart
  obtain ⟨rest, same⟩ := List.head?_eq_some_iff.mp head
  exact ⟨starts, c, rest, same, apart.1.1, apart.1.2, apart.2⟩

theorem scan_word {front text : List UInt8} (chars : ∀ c ∈ text, isWordChar c = true) :
    scan (.word front) text = (.word (front ++ text), []) := by
  induction text generalizing front with
  | nil => simp [scan]
  | cons c text ih =>
      have here : isWordChar c = true := chars c List.mem_cons_self
      have behind : scan (.word (front ++ [c])) text = (.word (front ++ [c] ++ text), []) :=
        ih fun d inside => chars d (List.mem_cons_of_mem c inside)
      simp [scan, feed, here, behind]

theorem spells_word {text : List UInt8} (word : IsWord text) : Spells text [.word text] := by
  obtain ⟨c, rest, rfl⟩ := List.exists_cons_of_ne_nil word.some
  have here : isWordChar c = true := word.chars c List.mem_cons_self
  have notBlank : c ≠ 32 := by
    rintro rfl
    cases here
  have noName : c ≠ 34 := by
    rintro rfl
    cases here
  have noLiteral : c ≠ 39 := by
    rintro rfl
    cases here
  have whole : scan .blank (c :: rest) = (.word (c :: rest), []) := by
    have first : fresh c = (.word [c], []) := by simp [fresh, notBlank, noName, noLiteral, here]
    have behind : scan (.word [c]) rest = (.word (c :: rest), []) :=
      scan_word fun d inside => word.chars d (List.mem_cons_of_mem c inside)
    simp [scan, feed, first, behind]
  exact ⟨[.word (c :: rest)], by rw [whole]; rfl, by rw [whole]; rfl⟩

theorem spells_value (v : Value) : Spells v.print v.tokens := by
  cases v with
  | null => exact ⟨[keyword "NULL"], rfl, rfl⟩
  | string text => exact spells_quoted .literal text

theorem spells_equation (e : Equation) : Spells e.print e.tokens := by
  have isEqual : Breaks (ascii "=") [.sign 61] := breaks_of (by decide) rfl rfl
  have plus : Breaks (ascii "+") [.sign 43] := breaks_of (by decide) rfl rfl
  have column := spells_quoted .name e.column
  rw [Equation.print, Equation.tokens]
  cases added : e.added with
  | false =>
      simp only [Bool.false_eq_true, if_false, List.append_nil]
      exact column.between isEqual (spells_value e.value)
  | true =>
      simp only [if_true]
      have sum := column.between plus (spells_value e.value)
      have whole := column.between isEqual sum
      simpa only [named, List.append_assoc] using whole

theorem breaks_comma : Breaks (ascii ",") comma := breaks_of (by decide) rfl rfl

theorem spells_names {columns : List (List UInt8)} (some' : columns ≠ []) :
    Spells (names columns) (nameTokens columns) :=
  spells_separated breaks_comma Quote.name.print named columns some' fun column _ =>
    spells_quoted .name column

theorem spells_conditions {where_ : List Equation} (some' : where_ ≠ []) :
    Spells (conditions where_) (conditionTokens where_) :=
  spells_separated (breaks_of (by decide) rfl rfl) Equation.print Equation.tokens where_ some' fun e _ =>
    spells_equation e

/-- Every statement is scanned as what it is made of. -/
theorem spells_print {st : Statement} (complete : st.Complete) : Spells st.print st.tokens := by
  have whereBreaks : Breaks (ascii " WHERE ") [keyword "WHERE"] := breaks_of (by decide) rfl rfl
  cases st with
  | insert table columns values =>
      have start : Starts (ascii "INSERT INTO ") [keyword "INSERT", keyword "INTO"] := by decide
      have opened : Breaks (ascii " (") [.sign 40] := breaks_of (by decide) rfl rfl
      have middle : Breaks (ascii ") VALUES (") [.sign 41, keyword "VALUES", .sign 40] :=
        breaks_of (by decide) rfl rfl
      have closed : Breaks (ascii ")") [.sign 41] := breaks_of (by decide) rfl rfl
      have items := spells_separated breaks_comma Value.print Value.tokens values complete.2 fun v _ =>
        spells_value v
      apply Starts.complete
      apply Spells.ends _ closed
      apply Spells.between _ middle items
      exact (start.spells (spells_quoted .name table)).between opened (spells_names complete.1)
  | update table set where_ =>
      have start : Starts (ascii "UPDATE ") [keyword "UPDATE"] := by decide
      have middle : Breaks (ascii " SET ") [keyword "SET"] := breaks_of (by decide) rfl rfl
      have items := spells_separated breaks_comma Equation.print Equation.tokens set complete.1 fun e _ =>
        spells_equation e
      apply Spells.between _ whereBreaks (spells_conditions complete.2)
      exact (start.spells (spells_quoted .name table)).between middle items
  | select columns table where_ =>
      have start : Starts (ascii "SELECT ") [keyword "SELECT"] := by decide
      have from' : Breaks (ascii " FROM ") [keyword "FROM"] := breaks_of (by decide) rfl rfl
      have all := (start.spells (spells_names complete)).between from' (spells_quoted .name table)
      cases where_ with
      | nil => exact all
      | cons e rest => exact all.between whereBreaks (spells_conditions (List.cons_ne_nil e rest))
  | delete table where_ =>
      have start : Starts (ascii "DELETE FROM ") [keyword "DELETE", keyword "FROM"] := by decide
      exact (start.spells (spells_quoted .name table)).between whereBreaks (spells_conditions complete)
  | deleteBelow table column limit =>
      have start : Starts (ascii "DELETE FROM ") [keyword "DELETE", keyword "FROM"] := by decide
      have below : Breaks (ascii " < ") [.sign 60] := breaks_of (by decide) rfl rfl
      apply Spells.between _ below (spells_word complete)
      exact (start.spells (spells_quoted .name table)).between whereBreaks (spells_quoted .name column)
  | create table columns keys =>
      have start : Starts (ascii "CREATE TABLE ") [keyword "CREATE", keyword "TABLE"] := by decide
      have opened : Breaks (ascii " (") [.sign 40] := breaks_of (by decide) rfl rfl
      have space : Breaks (ascii " ") [] := breaks_of (by decide) rfl rfl
      have primary : Breaks (ascii ", PRIMARY KEY(") [.sign 44, keyword "PRIMARY", keyword "KEY", .sign 40] :=
        breaks_of (by decide) rfl rfl
      have closed : Breaks (ascii "))") [.sign 41, .sign 41] := breaks_of (by decide) rfl rfl
      have items := spells_separated breaks_comma (fun c => Quote.name.print c.1 ++ ascii " " ++ c.2)
        columnTokens columns complete.1 fun c inside =>
          (spells_quoted .name c.1).between space (spells_word (complete.2.2 c inside))
      apply Starts.complete
      apply Spells.ends _ closed
      apply Spells.between _ primary (spells_names complete.2.1)
      exact (start.spells (spells_quoted .name table)).between opened items

/-! ## The grammar -/

/-- What is left behind these tokens. -/
def after : List Token → List Token → Option (List Token)
  | [], ts => some ts
  | _ :: _, [] => none
  | expected :: more, t :: ts => if t = expected then after more ts else none

def readName : List Token → Option (List UInt8 × List Token)
  | .quoted .name text :: ts => some (text, ts)
  | _ => none

def readValue : List Token → Option (Value × List Token)
  | .quoted .literal text :: ts => some (.string text, ts)
  | .word text :: ts => if text = ascii "NULL" then some (.null, ts) else none
  | _ => none

def readEquation (ts : List Token) : Option (Equation × List Token) := do
  let (column, ts) ← readName ts
  let ts ← after [.sign 61] ts
  match readName ts with
  | none =>
      let (value, ts) ← readValue ts
      return (⟨column, false, value⟩, ts)
  | some (again, ts) =>
      let ts ← after [.sign 43] ts
      let (value, ts) ← readValue ts
      if again = column then return (⟨column, true, value⟩, ts) else none

/-- At least one of these, with this token between them, and no more than the fuel allows. -/
def readMany {α : Type} (item : List Token → Option (α × List Token)) (sep : Token) :
    Nat → List Token → Option (List α × List Token)
  | 0, _ => none
  | fuel + 1, ts => do
      let (x, ts) ← item ts
      match after [sep] ts with
      | none => return ([x], ts)
      | some ts =>
          let (xs, ts) ← readMany item sep fuel ts
          return (x :: xs, ts)

def readAll {α : Type} (item : List Token → Option (α × List Token)) (sep : Token) (ts : List Token) :
    Option (List α × List Token) :=
  readMany item sep (ts.length + 1) ts

def complete {α : Type} (x : α) (ts : List Token) : Option α := if ts = [] then some x else none

def readInsert (ts : List Token) : Option Statement := do
  let ts ← after [keyword "INSERT", keyword "INTO"] ts
  let (table, ts) ← readName ts
  let ts ← after [.sign 40] ts
  let (columns, ts) ← readAll readName (.sign 44) ts
  let ts ← after [.sign 41, keyword "VALUES", .sign 40] ts
  let (values, ts) ← readAll readValue (.sign 44) ts
  let ts ← after [.sign 41] ts
  complete (.insert table columns values) ts

def readUpdate (ts : List Token) : Option Statement := do
  let ts ← after [keyword "UPDATE"] ts
  let (table, ts) ← readName ts
  let ts ← after [keyword "SET"] ts
  let (set, ts) ← readAll readEquation (.sign 44) ts
  let ts ← after [keyword "WHERE"] ts
  let (where_, ts) ← readAll readEquation (keyword "AND") ts
  complete (.update table set where_) ts

def readSelect (ts : List Token) : Option Statement := do
  let ts ← after [keyword "SELECT"] ts
  let (columns, ts) ← readAll readName (.sign 44) ts
  let ts ← after [keyword "FROM"] ts
  let (table, ts) ← readName ts
  match after [keyword "WHERE"] ts with
  | none => complete (.select columns table []) ts
  | some ts =>
      let (where_, ts) ← readAll readEquation (keyword "AND") ts
      complete (.select columns table where_) ts

/-- `column < limit`. -/
def readBelow (ts : List Token) : Option (List UInt8 × List UInt8) := do
  let (column, ts) ← readName ts
  let ts ← after [.sign 60] ts
  match ts with
  | [.word limit] => return (column, limit)
  | _ => none

def readDelete (ts : List Token) : Option Statement := do
  let ts ← after [keyword "DELETE", keyword "FROM"] ts
  let (table, ts) ← readName ts
  let ts ← after [keyword "WHERE"] ts
  match readBelow ts with
  | some (column, limit) => return .deleteBelow table column limit
  | none =>
      let (where_, ts) ← readAll readEquation (keyword "AND") ts
      complete (.delete table where_) ts

/-- A column with its type. -/
def readColumn (ts : List Token) : Option ((List UInt8 × List UInt8) × List Token) := do
  let (column, ts) ← readName ts
  match ts with
  | .word type :: ts => return ((column, type), ts)
  | _ => none

/-- The columns end where something else than a column follows a comma. -/
def readColumns : Nat → List Token → Option (List (List UInt8 × List UInt8) × List Token)
  | 0, _ => none
  | fuel + 1, ts => do
      let (c, ts) ← readColumn ts
      let ts ← after [.sign 44] ts
      match after [keyword "PRIMARY"] ts with
      | some ts => return ([c], ts)
      | none =>
          let (cs, ts) ← readColumns fuel ts
          return (c :: cs, ts)

def readCreate (ts : List Token) : Option Statement := do
  let ts ← after [keyword "CREATE", keyword "TABLE"] ts
  let (table, ts) ← readName ts
  let ts ← after [.sign 40] ts
  let (columns, ts) ← readColumns ts.length ts
  let ts ← after [keyword "KEY", .sign 40] ts
  let (keys, ts) ← readAll readName (.sign 44) ts
  let ts ← after [.sign 41, .sign 41] ts
  complete (.create table columns keys) ts

def readStatement (ts : List Token) : Option Statement :=
  (readInsert ts).or ((readUpdate ts).or ((readSelect ts).or ((readDelete ts).or (readCreate ts))))

/-- The statement that a text is. -/
def read (text : List UInt8) : Option Statement := (tokens text).bind readStatement

/-! ## What is read -/

@[simp]
theorem after_append (expected ts : List Token) : after expected (expected ++ ts) = some ts := by
  induction expected with
  | nil => rfl
  | cons t expected ih => simp [after, ih]

@[simp]
theorem after_cons {t u : Token} {ts : List Token} : after [t] (u :: ts) = if u = t then some ts else none := by
  simp [after]

/-- The items of a kind are read one by one. -/
structure Grammar {α : Type} (item : List Token → Option (α × List Token)) (ts : α → List Token) : Prop where
  reads : ∀ x rest, item (ts x ++ rest) = some (x, rest)

theorem grammar_name : Grammar readName named := ⟨fun _ _ => rfl⟩

@[simp]
theorem readName_named (column : List UInt8) (rest : List Token) :
    readName (named column ++ rest) = some (column, rest) := rfl

theorem grammar_value : Grammar readValue Value.tokens := by
  constructor
  intro v rest
  cases v with
  | null => simp [readValue, Value.tokens, keyword]
  | string text => rfl

theorem grammar_equation : Grammar readEquation Equation.tokens := by
  constructor
  intro e rest
  obtain ⟨column, added, value⟩ := e
  have noName : readName (value.tokens ++ rest) = none := by cases value <;> rfl
  cases added with
  | false => simp [readEquation, Equation.tokens, noName, grammar_value.reads]
  | true => simp [readEquation, Equation.tokens, grammar_value.reads]

theorem length_separated {α : Type} {sep : List α} (some' : sep ≠ []) (texts : List (List α)) :
    texts.length ≤ (separated sep texts).length + 1 := by
  have positive : 0 < sep.length := List.length_pos_iff.mpr some'
  induction texts with
  | nil => exact Nat.zero_le _
  | cons text rest ih =>
      cases rest with
      | nil => simp [separated]
      | cons next rest =>
          simp only [separated, List.length_append, List.length_cons] at ih ⊢
          omega

section Many
variable {α : Type} {item : List Token → Option (α × List Token)} {ts : α → List Token} {sep : Token}
  {rest : List Token}

/-- Induction on the items, with fuel for each. -/
theorem readMany_separated (grammar : Grammar item ts) (ends : after [sep] rest = none) (x : α) (xs : List α)
    (fuel : Nat) (enough : (x :: xs).length ≤ fuel) :
    readMany item sep fuel (separated [sep] ((x :: xs).map ts) ++ rest) = some (x :: xs, rest) := by
  induction xs generalizing x fuel with
  | nil =>
      obtain ⟨fuel, rfl⟩ := Nat.exists_eq_add_of_lt enough
      simp [readMany, separated, grammar.reads, ends]
  | cons y xs ih =>
      cases fuel with
      | zero => exact absurd enough (by simp)
      | succ fuel =>
          have behind := ih y fuel (Nat.le_of_succ_le_succ enough)
          simp only [List.map_cons, separated, List.append_assoc] at behind ⊢
          simp only [readMany, grammar.reads, Option.bind_eq_bind, Option.bind_some, after_append, behind]
          rfl

theorem readAll_separated (grammar : Grammar item ts) (sep : Token) (rest : List Token)
    (ends : after [sep] rest = none) {xs : List α} (some' : xs ≠ []) : readAll item sep (separated [sep] (xs.map ts) ++ rest) = some (xs, rest) := by
  obtain ⟨x, xs, rfl⟩ := List.exists_cons_of_ne_nil some'
  apply readMany_separated grammar ends
  have long := length_separated (List.cons_ne_nil sep []) ((x :: xs).map ts)
  rw [List.length_map] at long
  rw [List.length_append]
  omega

end Many

theorem separated_cons {α : Type} (sep text : List α) (rest : List (List α)) :
    ∃ tail, separated sep (text :: rest) = text ++ tail := by
  cases rest with
  | nil => exact ⟨[], (List.append_nil text).symm⟩
  | cons next rest => exact ⟨sep ++ separated sep (next :: rest), List.append_assoc _ _ _⟩

theorem readColumn_tokens (c : List UInt8 × List UInt8) (rest : List Token) :
    readColumn (columnTokens c ++ rest) = some (c, rest) := rfl

theorem readColumns_separated (columns : List (List UInt8 × List UInt8)) (some' : columns ≠ [])
    (rest : List Token) (fuel : Nat) (enough : columns.length ≤ fuel) :
    readColumns fuel (separated comma (columns.map columnTokens) ++ ([.sign 44, keyword "PRIMARY"] ++ rest)) =
      some (columns, rest) := by
  induction columns generalizing fuel with
  | nil => exact absurd rfl some'
  | cons c columns ih =>
      cases fuel with
      | zero => exact absurd enough (by simp)
      | succ fuel =>
          cases columns with
          | nil => simp [readColumns, separated, readColumn_tokens]
          | cons d columns =>
              have behind := ih (List.cons_ne_nil d columns) fuel (Nat.le_of_succ_le_succ enough)
              have noKey (ts : List Token) : after [keyword "PRIMARY"] (columnTokens d ++ ts) = none := rfl
              obtain ⟨tail, same⟩ := separated_cons comma (columnTokens d) (columns.map columnTokens)
              simp only [List.map_cons] at behind
              simp only [List.map_cons, separated, List.append_assoc, readColumns, readColumn_tokens,
                Option.bind_eq_bind, Option.bind_some]
              rw [comma, after_append, Option.bind_some, ← comma, same, List.append_assoc, noKey,
                ← List.append_assoc, ← same, behind]
              rfl

section Statements
variable {table column limit : List UInt8} {columns keys : List (List UInt8)} {values : List Value}
  {set where_ : List Equation} {types : List (List UInt8 × List UInt8)}

/-- The conditions are the last of a statement. -/
theorem readConditions (some' : where_ ≠ []) :
    readAll readEquation (keyword "AND") (conditionTokens where_) = some (where_, []) := by
  have all := readAll_separated grammar_equation (keyword "AND") [] rfl some'
  rwa [List.append_nil] at all

theorem readInsert_tokens (whole : (Statement.insert table columns values).Complete) :
    readInsert (Statement.insert table columns values).tokens = some (.insert table columns values) := by
  have first (rest : List Token) := readAll_separated grammar_name (.sign 44)
    ([.sign 41, keyword "VALUES", .sign 40] ++ rest) rfl whole.1
  have second := readAll_separated grammar_value (.sign 44) [.sign 41] rfl whole.2
  simp only [readInsert, Statement.tokens, nameTokens, comma, List.append_assoc, after_append, readName_named,
    Option.bind_eq_bind, Option.bind_some, first, second]
  rfl

theorem readUpdate_tokens (whole : (Statement.update table set where_).Complete) :
    readUpdate (Statement.update table set where_).tokens = some (.update table set where_) := by
  have first := readAll_separated grammar_equation (.sign 44) ([keyword "WHERE"] ++ conditionTokens where_) rfl
    whole.1
  simp only [readUpdate, Statement.tokens, comma, List.append_assoc, after_append, readName_named,
    Option.bind_eq_bind, Option.bind_some, first, readConditions whole.2]
  rfl

theorem readSelect_tokens (whole : (Statement.select columns table where_).Complete) :
    readSelect (Statement.select columns table where_).tokens = some (.select columns table where_) := by
  have first (rest : List Token) := readAll_separated grammar_name (.sign 44)
    ([keyword "FROM"] ++ (named table ++ rest)) rfl whole
  cases where_ with
  | nil =>
      have only := first []
      rw [List.append_nil] at only
      simp only [readSelect, Statement.tokens, nameTokens, comma, List.append_assoc, after_append,
        Option.bind_eq_bind, Option.bind_some, only]
      rfl
  | cons e rest =>
      simp only [readSelect, Statement.tokens, nameTokens, comma, List.append_assoc, after_append,
        readName_named, Option.bind_eq_bind, Option.bind_some, first,
        readConditions (List.cons_ne_nil e rest)]
      rfl

theorem readDelete_tokens (whole : (Statement.delete table where_).Complete) :
    readDelete (Statement.delete table where_).tokens = some (.delete table where_) := by
  obtain ⟨e, rest, rfl⟩ := List.exists_cons_of_ne_nil whole
  have noLimit : readBelow (conditionTokens (e :: rest)) = none := by
    obtain ⟨tail, same⟩ := separated_cons conjunction e.tokens (rest.map Equation.tokens)
    rw [conditionTokens, List.map_cons, same, Equation.tokens]
    simp only [List.append_assoc, readBelow, readName_named, Option.bind_eq_bind, Option.bind_some]
    rfl
  simp only [readDelete, Statement.tokens, List.append_assoc, after_append, readName_named,
    Option.bind_eq_bind, Option.bind_some, noLimit, readConditions whole]
  rfl

theorem readDeleteBelow_tokens :
    readDelete (Statement.deleteBelow table column limit).tokens = some (.deleteBelow table column limit) := by
  simp only [readDelete, Statement.tokens, List.append_assoc, after_append, readName_named,
    Option.bind_eq_bind, Option.bind_some, readBelow]
  rfl

theorem readCreate_tokens (whole : (Statement.create table types keys).Complete) :
    readCreate (Statement.create table types keys).tokens = some (.create table types keys) := by
  have second := readAll_separated grammar_name (.sign 44) [.sign 41, .sign 41] rfl whole.2.1
  have split : [Token.sign 44, keyword "PRIMARY", keyword "KEY", .sign 40] =
      [.sign 44, keyword "PRIMARY"] ++ [keyword "KEY", .sign 40] := rfl
  have long : types.length ≤ (separated comma (types.map columnTokens) ++ ([Token.sign 44, keyword "PRIMARY"] ++
      ([keyword "KEY", Token.sign 40] ++ (nameTokens keys ++ [Token.sign 41, Token.sign 41])))).length := by
    have enough := length_separated (List.cons_ne_nil (Token.sign 44) []) (types.map columnTokens)
    rw [List.length_map] at enough
    simp only [List.length_append, List.length_cons, comma]
    omega
  have first := readColumns_separated types whole.1
    ([keyword "KEY", .sign 40] ++ (nameTokens keys ++ [.sign 41, .sign 41])) _ long
  simp only [readCreate, Statement.tokens, split, List.append_assoc, after_append, readName_named,
    Option.bind_eq_bind, Option.bind_some, first]
  simp only [nameTokens, comma, second, Option.bind_some]
  rfl

theorem readStatement_tokens {st : Statement} (whole : st.Complete) : readStatement st.tokens = some st := by
  cases st with
  | insert table columns values =>
      rw [readStatement, readInsert_tokens whole]
      rfl
  | update table set where_ =>
      have noInsert : readInsert (Statement.update table set where_).tokens = none := rfl
      rw [readStatement, noInsert, readUpdate_tokens whole]
      rfl
  | select columns table where_ =>
      have noInsert : readInsert (Statement.select columns table where_).tokens = none := by cases where_ <;> rfl
      have noUpdate : readUpdate (Statement.select columns table where_).tokens = none := by cases where_ <;> rfl
      rw [readStatement, noInsert, noUpdate, readSelect_tokens whole]
      rfl
  | delete table where_ =>
      rw [readStatement, readDelete_tokens whole]
      rfl
  | deleteBelow table column limit =>
      rw [readStatement, readDeleteBelow_tokens]
      rfl
  | create table columns keys =>
      rw [readStatement, readCreate_tokens whole]
      rfl

end Statements

/-- What is printed is read back. -/
theorem read_print {st : Statement} (whole : st.Complete) : read st.print = some st := by
  rw [read, tokens_of_spells (spells_print whole), Option.bind_some, readStatement_tokens whole]

end Mopher.SqlText
