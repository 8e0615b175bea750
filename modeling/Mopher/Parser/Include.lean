import Mopher.Var

/-!
# Included files

Model of `parser.c` with the actions of `acl_lex.l` and `cf_lex.l` that use it: the stack
of files, the line that each of them has come to, and the buffers of the scanner.  A file
is the sequence of its tokens, line ends and include directives.

When a file is included, the scanner's buffer is kept in the file that includes it; at
the end of a file the buffer that the file has kept is deleted, which is none unless it
has included something.  A read from a buffer that is not there is a fault.

A scan is compared with the text in which every directive is replaced by the file it
names.
-/

set_option autoImplicit false

namespace Mopher.Include

def parserPathlen : Nat := 256

def parserMaxstack : Nat := 10

inductive Item where
  | token (text : Bytes)
  | newline
  | incl (name : Bytes)
deriving DecidableEq

/-- `parser_file_t`; `pf_filename` is a part of the path. -/
structure ParserFile where
  path : Bytes
  line : Nat
  yyBuffer : Option Nat

/-- `pf_filename`: what is behind the last slash. -/
def ParserFile.filename (pf : ParserFile) : Bytes := (pf.path.reverse.takeWhile (· ≠ 47)).reverse

/-- `parser_t`, with the files that the two lists point to. -/
structure Parser where
  files : Nat → ParserFile
  next : Nat
  stack : List Nat
  all : List Nat

/-- The scanner: what is left in each buffer, and the current one. -/
structure Lexer where
  parser : Parser
  buffers : Nat → Option (List Item)
  created : Nat
  current : Option Nat

/-- A token with the file and the line that it is attributed to. -/
structure Lexeme where
  text : Bytes
  path : Bytes
  line : Nat
deriving DecidableEq

/-- The messages of `log_die`. -/
inductive Death where
  | missing (path : Bytes) (line : Nat) (name : Bytes)
  | tooDeep (name : Bytes)
deriving DecidableEq

section Model

/-- The path that fits. -/
def clip (path : Bytes) : Bytes := path.take (parserPathlen - 1)

def parserFileCreate (path : Bytes) : ParserFile := ⟨clip path, 1, none⟩

/-- `parser_current_file`: `LL_TAIL` is the file that was pushed first. -/
def parserCurrentFile (p : Parser) : Option Nat :=
  match p.stack with
  | f :: _ => some f
  | [] => p.all.getLast?

/-- `parser_stack`; there is no result where it calls `log_die`. -/
def parserStack (p : Parser) (yyBuffer : Option Nat) (path : Bytes) : Option Parser :=
  let files :=
    match parserCurrentFile p with
    | some f => Function.update p.files f { p.files f with yyBuffer := yyBuffer }
    | none => p.files
  if p.stack.length > parserMaxstack then none
  else
    some ⟨Function.update files p.next (parserFileCreate path), p.next + 1, p.next :: p.stack,
      p.next :: p.all⟩

/-- `parser_pop`. -/
def parserPop (p : Parser) : Parser := { p with stack := p.stack.tail }

/-- `parser_next_line`. -/
def parserNextLine (p : Parser) (f : Nat) : Parser :=
  { p with files := Function.update p.files f { p.files f with line := (p.files f).line + 1 } }

/-- `yy_delete_buffer`. -/
def yyDeleteBuffer (s : Lexer) : Option Nat → Lexer
  | none => s
  | some b =>
      { s with
        buffers := Function.update s.buffers b none
        current := if s.current = some b then none else s.current }

inductive Next where
  | emit (lexeme : Lexeme) (s : Lexer)
  | go (s : Lexer)
  | stop (s : Lexer)
  | die (death : Death)
  | fault

/-- The action at the end of a file. -/
def atEof (s : Lexer) (f : Nat) : Next :=
  let s := yyDeleteBuffer s (s.parser.files f).yyBuffer
  let s := { s with parser := parserPop s.parser }
  match s.parser.stack with
  | [] => .stop s
  | g :: _ => .go { s with current := (s.parser.files g).yyBuffer }

/-- One action of the scanner.  `fs` is what `fopen` finds. -/
def step (fs : Bytes → Option (List Item)) (s : Lexer) : Next :=
  match s.current, parserCurrentFile s.parser with
  | some b, some f =>
      let pf := s.parser.files f
      match s.buffers b with
      | none => .fault
      | some [] => atEof s f
      | some (item :: rest) =>
          let s := { s with buffers := Function.update s.buffers b (some rest) }
          match item with
          | .token text => .emit ⟨text, pf.path, pf.line⟩ s
          | .newline => .go { s with parser := parserNextLine s.parser f }
          | .incl name =>
              match fs name with
              | none => .die (.missing pf.path pf.line name)
              | some items =>
                  match parserStack s.parser s.current name with
                  | none => .die (.tooDeep name)
                  | some parser =>
                      .go ⟨parser, Function.update s.buffers s.created (some items), s.created + 1,
                        some s.created⟩
  | _, _ => .fault

/-- The files of a `parser_t` after `parser_init`. -/
def parserInit : Parser := ⟨fun _ => ⟨[], 0, none⟩, 0, [], []⟩

/-- `parser`, when the callback is called. -/
def start (path : Bytes) (items : List Item) : Lexer :=
  ⟨(parserStack parserInit none path).getD parserInit, fun b => if b = 0 then some items else none, 1,
    some 0⟩

/-- Actions that lead from one state to another, with the tokens that the grammar gets. -/
inductive Runs (fs : Bytes → Option (List Item)) : Lexer → List Lexeme → Lexer → Prop where
  | refl (s : Lexer) : Runs fs s [] s
  | emit {s t u : Lexer} {lexeme : Lexeme} {rest : List Lexeme} : step fs s = .emit lexeme t →
      Runs fs t rest u → Runs fs s (lexeme :: rest) u
  | go {s t u : Lexer} {rest : List Lexeme} : step fs s = .go t → Runs fs t rest u → Runs fs s rest u

end Model

/-! ## The text that is meant -/

section Expand
variable (fs : Bytes → Option (List Item))

/-- The items of a file from a line on; `sub` is what an included file stands for. -/
def expandItems (sub : Bytes → List Item → List Lexeme × Except Death Nat) (path : Bytes) :
    List Item → Nat → List Lexeme × Except Death Nat
  | [], line => ([], .ok line)
  | .token text :: rest, line =>
      let behind := expandItems sub path rest line
      (⟨text, path, line⟩ :: behind.1, behind.2)
  | .newline :: rest, line => expandItems sub path rest (line + 1)
  | .incl name :: rest, line =>
      match fs name with
      | none => ([], .error (.missing path line name))
      | some items =>
          match sub name items with
          | (inner, .error death) => (inner, .error death)
          | (inner, .ok _) =>
              let behind := expandItems sub path rest line
              (inner ++ behind.1, behind.2)

/-- A file, where at most `room` files may be open at a time; how many lines it has, or why
the scan ends. -/
def expand : Nat → Bytes → List Item → List Lexeme × Except Death Nat
  | 0, path, _ => ([], .error (.tooDeep path))
  | room + 1, path, items => expandItems fs (expand room) (clip path) items 1

end Expand

/-! ## A file that is scanned -/

section Scan
variable {fs : Bytes → Option (List Item)} {s t u : Lexer} {f b : Nat} {below : List Nat}
  {path : Bytes} {line : Nat} {items : List Item}

theorem Runs.trans {front back : List Lexeme} (first : Runs fs s front t) (second : Runs fs t back u) :
    Runs fs s (front ++ back) u := by
  induction first with
  | refl s => exact second
  | emit stepped _ ih => exact .emit stepped (ih second)
  | go stepped _ ih => exact .go stepped (ih second)

/-- The scanner is in this file, with these items before it. -/
structure At (s : Lexer) (f b : Nat) (below : List Nat) (path : Bytes) (line : Nat) (items : List Item) :
    Prop where
  stack : s.parser.stack = f :: below
  known : ∀ g ∈ f :: below, g < s.parser.next
  apart : f ∉ below
  file : (s.parser.files f).path = path ∧ (s.parser.files f).line = line
  kept : (s.parser.files f).yyBuffer = none ∨ (s.parser.files f).yyBuffer = some b
  current : s.current = some b
  buffer : s.buffers b = some items
  made : b < s.created

/-- What is not this file's stays as it is. -/
structure Keeps (s t : Lexer) (f b : Nat) : Prop where
  files : ∀ g < s.parser.next, g ≠ f → t.parser.files g = s.parser.files g
  buffers : ∀ c < s.created, c ≠ b → t.buffers c = s.buffers c
  next : s.parser.next ≤ t.parser.next
  created : s.created ≤ t.created
  all : ∃ new, t.parser.all = new ++ s.parser.all

theorem Keeps.refl (s : Lexer) (f b : Nat) : Keeps s s f b :=
  ⟨fun _ _ _ => rfl, fun _ _ _ => rfl, Nat.le_refl _, Nat.le_refl _, [], rfl⟩

theorem Keeps.trans (first : Keeps s t f b) (second : Keeps t u f b) : Keeps s u f b := by
  refine ⟨?_, ?_, Nat.le_trans first.next second.next, Nat.le_trans first.created second.created, ?_⟩
  · intro g old other
    rw [second.files g (Nat.lt_of_lt_of_le old first.next) other, first.files g old other]
  · intro c old other
    rw [second.buffers c (Nat.lt_of_lt_of_le old first.created) other, first.buffers c old other]
  · obtain ⟨new, first⟩ := first.all
    obtain ⟨new', second⟩ := second.all
    exact ⟨new' ++ new, by rw [second, first, List.append_assoc]⟩

theorem At.currentFile (at' : At s f b below path line items) : parserCurrentFile s.parser = some f := by
  rw [parserCurrentFile, at'.stack]

theorem step_at (fs : Bytes → Option (List Item)) (at' : At s f b below path line items) :
    step fs s =
      match items with
      | [] => atEof s f
      | item :: rest =>
          let s' := { s with buffers := Function.update s.buffers b (some rest) }
          match item with
          | .token text => .emit ⟨text, path, line⟩ s'
          | .newline => .go { s' with parser := parserNextLine s.parser f }
          | .incl name =>
              match fs name with
              | none => .die (.missing path line name)
              | some inner =>
                  match parserStack s.parser s.current name with
                  | none => .die (.tooDeep name)
                  | some parser =>
                      .go ⟨parser, Function.update s'.buffers s.created (some inner), s.created + 1,
                        some s.created⟩ := by
  obtain ⟨rfl, rfl⟩ := at'.file
  rw [step, at'.current, at'.currentFile]
  simp only [at'.buffer]
  cases items with
  | nil => rfl
  | cons item rest => cases item <;> rfl

/-- What is read from the buffer is gone from it. -/
theorem At.read {item : Item} (at' : At s f b below path line (item :: items)) :
    let t := { s with buffers := Function.update s.buffers b (some items) }
    At t f b below path line items ∧ Keeps s t f b := by
  refine ⟨⟨at'.stack, at'.known, at'.apart, at'.file, at'.kept, at'.current, by simp, at'.made⟩, ?_⟩
  refine ⟨fun _ _ _ => rfl, ?_, Nat.le_refl _, Nat.le_refl _, [], rfl⟩
  intro c _ other
  exact Function.update_of_ne other _ _

theorem At.nextLine (at' : At s f b below path line items) :
    let t := { s with parser := parserNextLine s.parser f }
    At t f b below path (line + 1) items ∧ Keeps s t f b := by
  obtain ⟨samePath, sameLine⟩ := at'.file
  refine ⟨⟨at'.stack, at'.known, at'.apart, ?_, ?_, at'.current, at'.buffer, at'.made⟩, ?_⟩
  · simp [parserNextLine, samePath, sameLine]
  · simpa [parserNextLine] using at'.kept
  · refine ⟨?_, fun _ _ _ => rfl, Nat.le_refl _, Nat.le_refl _, [], rfl⟩
    intro g _ other
    exact Function.update_of_ne other _ _

/-- The file that includes another one, while that one is read. -/
structure Waits (s t : Lexer) (f b : Nat) (rest : List Item) : Prop where
  file : t.parser.files f = { s.parser.files f with yyBuffer := some b }
  buffer : t.buffers b = some rest
  keeps : Keeps s t f b

/-- The directive opens the file, and keeps the place. -/
theorem At.opens {name : Bytes} {rest inner : List Item}
    (at' : At s f b below path line (.incl name :: rest)) (found : fs name = some inner)
    (room : below.length + 1 ≤ parserMaxstack) :
    ∃ t, step fs s = .go t ∧
      At t s.parser.next s.created (f :: below) (clip name) 1 inner ∧ Waits s t f b rest := by
  have old : f < s.parser.next := at'.known f List.mem_cons_self
  have oldBuffer : b ≠ s.created := Nat.ne_of_lt at'.made
  have notNew : f ≠ s.parser.next := Nat.ne_of_lt old
  have fits : ¬ s.parser.stack.length > parserMaxstack := by
    rw [at'.stack, List.length_cons]
    omega
  have stepped := step_at fs at'
  simp only [found, parserStack, at'.currentFile, if_neg fits] at stepped
  refine ⟨_, stepped, ⟨?_, ?_, ?_, ?_, ?_, rfl, ?_, Nat.lt_succ_self _⟩, ⟨?_, ?_, ?_⟩⟩
  · rw [at'.stack]
  · intro g inside
    rcases List.mem_cons.mp inside with rfl | inside
    · exact Nat.lt_succ_self _
    · exact Nat.lt_succ_of_lt (at'.known g inside)
  · intro inside
    exact Nat.lt_irrefl _ (at'.known _ inside)
  · simp [parserFileCreate]
  · left
    simp [parserFileCreate]
  · simp
  · simp [notNew, at'.current]
  · simp [oldBuffer]
  · refine ⟨?_, ?_, Nat.le_succ _, Nat.le_succ _, [s.parser.next], rfl⟩
    · intro g known other
      simp [Nat.ne_of_lt known, other]
    · intro c known other
      simp [Nat.ne_of_lt known, other]

/-- What the included file does not keep is not there before it is opened. -/
theorem Waits.during {rest : List Item} (waits : Waits s t f b rest)
    (keeps : Keeps t u s.parser.next s.created) (at' : At s f b below path line items) :
    Waits s u f b rest := by
  have old : f < s.parser.next := at'.known f List.mem_cons_self
  refine ⟨?_, ?_, ⟨?_, ?_, ?_, ?_, ?_⟩⟩
  · rw [keeps.files f (Nat.lt_of_lt_of_le old waits.keeps.next) (Nat.ne_of_lt old), waits.file]
  · rw [keeps.buffers b (Nat.lt_of_lt_of_le at'.made waits.keeps.created) (Nat.ne_of_lt at'.made),
      waits.buffer]
  · intro g known other
    rw [keeps.files g (Nat.lt_of_lt_of_le known waits.keeps.next) (Nat.ne_of_lt known),
      waits.keeps.files g known other]
  · intro c known other
    rw [keeps.buffers c (Nat.lt_of_lt_of_le known waits.keeps.created) (Nat.ne_of_lt known),
      waits.keeps.buffers c known other]
  · exact Nat.le_trans waits.keeps.next keeps.next
  · exact Nat.le_trans waits.keeps.created keeps.created
  · obtain ⟨new, first⟩ := waits.keeps.all
    obtain ⟨new', second⟩ := keeps.all
    exact ⟨new' ++ new, by rw [second, first, List.append_assoc]⟩

/-- The buffer that a file has kept is its own, or there is none. -/
theorem At.deletes (at' : At s f b below path line items) :
    let t := yyDeleteBuffer s (s.parser.files f).yyBuffer
    t.parser = s.parser ∧ t.created = s.created ∧ ∀ c ≠ b, t.buffers c = s.buffers c := by
  rcases at'.kept with none' | own
  · rw [none']
    exact ⟨rfl, rfl, fun _ _ => rfl⟩
  · rw [own]
    exact ⟨rfl, rfl, fun c other => Function.update_of_ne other _ _⟩

/-- The end of an included file: the scan goes on behind the directive. -/
theorem At.returns {g c : Nat} {path' : Bytes} {line' : Nat} {item : Item} {rest : List Item}
    (at' : At s f b below path line (item :: rest)) (inner : At t g c (f :: below) path' line' [])
    (waits : Waits s t f b rest) (new : s.created ≤ c) :
    ∃ u, step fs t = .go u ∧ At u f b below path line rest ∧ Keeps s u f b := by
  have stepped := step_at fs inner
  obtain ⟨sameParser, sameCreated, others⟩ := inner.deletes
  have keptBuffer : (t.parser.files f).yyBuffer = some b := by rw [waits.file]
  simp only [atEof, parserPop, sameParser, inner.stack, List.tail_cons, keptBuffer] at stepped
  refine ⟨_, stepped, ⟨rfl, ?_, at'.apart, ?_, .inr keptBuffer, rfl, ?_, ?_⟩, ?_⟩
  · intro h inside
    exact inner.known h (List.mem_cons_of_mem _ inside)
  · rw [waits.file]
    exact at'.file
  · exact (others b (Nat.ne_of_lt (Nat.lt_of_lt_of_le at'.made new))).trans waits.buffer
  · exact Nat.lt_of_lt_of_le at'.made (sameCreated ▸ waits.keeps.created)
  · refine ⟨waits.keeps.files, ?_, waits.keeps.next, sameCreated ▸ waits.keeps.created, waits.keeps.all⟩
    intro d old other
    exact (others d (Nat.ne_of_lt (Nat.lt_of_lt_of_le old new))).trans (waits.keeps.buffers d old other)

/-- The scan of a file gives this, and what is around the file waits. -/
def Scanned (fs : Bytes → Option (List Item)) (s : Lexer) (f b : Nat) (below : List Nat) (path : Bytes)
    (result : List Lexeme × Except Death Nat) : Prop :=
  ∃ t, Runs fs s result.1 t ∧
    match result.2 with
    | .ok line => At t f b below path line [] ∧ Keeps s t f b
    | .error death => step fs t = .die death

theorem Scanned.emit {lexeme : Lexeme} {result : List Lexeme × Except Death Nat}
    (stepped : step fs s = .emit lexeme t) (keeps : Keeps s t f b)
    (rest : Scanned fs t f b below path result) :
    Scanned fs s f b below path (lexeme :: result.1, result.2) := by
  obtain ⟨u, run, ends⟩ := rest
  refine ⟨u, .emit stepped run, ?_⟩
  rcases outcome : result.2 with death | line
  · rw [outcome] at ends
    exact ends
  · rw [outcome] at ends
    exact ⟨ends.1, keeps.trans ends.2⟩

theorem Scanned.behind {front : List Lexeme} {result : List Lexeme × Except Death Nat}
    (run : Runs fs s front t) (keeps : Keeps s t f b) (rest : Scanned fs t f b below path result) :
    Scanned fs s f b below path (front ++ result.1, result.2) := by
  obtain ⟨u, run', ends⟩ := rest
  refine ⟨u, run.trans run', ?_⟩
  rcases outcome : result.2 with death | line
  · rw [outcome] at ends
    exact ends
  · rw [outcome] at ends
    exact ⟨ends.1, keeps.trans ends.2⟩

/-- What a directive leads to, when the file it names stands for this. -/
def Replaced (fs : Bytes → Option (List Item)) (s : Lexer) (f b : Nat) (below : List Nat) (path : Bytes)
    (line : Nat) (rest : List Item) (result : List Lexeme × Except Death Nat) : Prop :=
  ∃ t, Runs fs s result.1 t ∧
    match result.2 with
    | .ok _ => At t f b below path line rest ∧ Keeps s t f b
    | .error death => step fs t = .die death

/-- Induction on what is left of the file, when every directive does what it should. -/
theorem scan_items {sub : Bytes → List Item → List Lexeme × Except Death Nat}
    (replaced : ∀ (s : Lexer) (line : Nat) (name : Bytes) (inner rest : List Item), fs name = some inner →
      At s f b below path line (.incl name :: rest) →
      Replaced fs s f b below path line rest (sub name inner))
    (at' : At s f b below path line items) :
    Scanned fs s f b below path (expandItems fs sub path items line) := by
  induction items generalizing s line with
  | nil => exact ⟨s, .refl s, at', Keeps.refl s f b⟩
  | cons item rest ih =>
      cases item with
      | token text =>
          obtain ⟨next, keeps⟩ := at'.read
          exact (ih next).emit (step_at fs at') keeps
      | newline =>
          obtain ⟨next, keeps⟩ := at'.read
          obtain ⟨nextLine, keeps'⟩ := next.nextLine
          exact (ih nextLine).behind (.go (step_at fs at') (.refl _)) (keeps.trans keeps')
      | incl name =>
          have stepped := step_at fs at'
          rw [expandItems]
          cases found : fs name with
          | none =>
              simp only [found] at stepped
              exact ⟨s, .refl s, stepped⟩
          | some inner =>
              have directive := replaced s line name inner rest found at'
              rcases outcome : sub name inner with ⟨front, death | _⟩
              · rw [outcome] at directive
                obtain ⟨t, run, dies⟩ := directive
                exact ⟨t, by simpa only [outcome] using run, by simpa only [outcome] using dies⟩
              · rw [outcome] at directive
                obtain ⟨t, run, next, keeps⟩ := directive
                simpa only [outcome] using (ih next).behind run keeps

/-- Induction on how many files may still be opened. -/
theorem scan_file (fs : Bytes → Option (List Item)) (room : Nat) (at' : At s f b below path line items)
    (left : below.length + room = parserMaxstack) :
    Scanned fs s f b below path (expandItems fs (expand fs room) path items line) := by
  induction room generalizing s f b below path line items with
  | zero =>
      apply scan_items _ at'
      intro s line name inner rest found at'
      have full : s.parser.stack.length > parserMaxstack := by
        rw [at'.stack, List.length_cons]
        omega
      have stepped := step_at fs at'
      simp only [found, parserStack, if_pos full] at stepped
      exact ⟨s, .refl s, stepped⟩
  | succ room ih =>
      apply scan_items _ at'
      intro s line name inner rest found at'
      obtain ⟨t, opened, included, waits⟩ := at'.opens found (by omega)
      obtain ⟨u, run, ends⟩ := ih included (by simp only [List.length_cons]; omega)
      rw [expand]
      rcases outcome : expandItems fs (expand fs room) (clip name) inner 1 with ⟨front, death | last⟩
      · rw [outcome] at run ends
        exact ⟨u, .go opened run, ends⟩
      · rw [outcome] at run ends
        obtain ⟨atEnd, keeps⟩ := ends
        have waits' : Waits s u f b rest := waits.during keeps at'
        obtain ⟨v, back, next, keeps'⟩ := at'.returns atEnd waits' (Nat.le_refl _)
        refine ⟨v, ?_, next, keeps'⟩
        have whole := (Runs.go opened run).trans (.go back (.refl v))
        rwa [List.append_nil] at whole

theorem start_at (path : Bytes) (items : List Item) :
    At (start path items) 0 0 [] (clip path) 1 items := by
  refine ⟨rfl, ?_, List.not_mem_nil, ⟨rfl, rfl⟩, .inl rfl, rfl, rfl, Nat.zero_lt_one⟩
  intro g inside
  rw [List.mem_singleton.mp inside]
  exact Nat.zero_lt_one

end Scan

end Mopher.Include
