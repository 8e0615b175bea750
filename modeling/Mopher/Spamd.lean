import Mopher.Lib.CheckedBuffer
import Mopher.Var

/-!
# Replies of spamd

Model of the part of `spamd_query` in `modules/spamd.c` that reads and takes apart what
spamd answers, with every access to `buffer`.  The pointers of the source are places in
the buffer.  Only the bytes that were received last and the NUL behind them may be read.
Pointers are moved over separators that need not be there, texts are made printable
whether or not there are so many bytes, and the second read fills the whole buffer and
leaves no place for the NUL.
-/

set_option autoImplicit false

namespace Mopher.Spamd

open CheckedBuffer

def bufLen : Nat := 4096

def logErr : Int := 3

def logNotice : Int := 5

def spamdSpamd : Bytes := cstr "SPAMD/"

def spamdVersion : Bytes := cstr "1.1"

def spamdExOk : Bytes := cstr "EX_OK"

def spamdSpam : Bytes := cstr "Spam: "

def spamdTrue : Bytes := cstr "True ; "

def spamdFalse : Bytes := cstr "False ; "

/-- What a `read` for at most `room` bytes returns: -1, or the bytes that came. -/
inductive Reply (room : Nat) where
  | error
  | data (bytes : Bytes) (fits : bytes.length ≤ room)

/-- The `error` label, or what is stored; the score is the text that `strtod` gets. -/
inductive Answer where
  | failed
  | scored (spam : Bool) (score : Bytes) (symbols : List Bytes)
deriving Repr, DecidableEq

/-! ## Messages -/

/-- The loop of `spamd_printable_buffer` over `count` bytes; a `char` is signed. -/
def printableLoop : Nat → Buffer → Nat → Except BadAccess Buffer
  | 0, b, _ => .ok b
  | count + 1, b, p => do
      let byte ← b.load p
      if byte.toInt8 < 33 ∨ 126 < byte.toInt8 then
        let b ← b.store p 46
        printableLoop count b (p + 1)
      else printableLoop count b (p + 1)

def spamdPrintableBuffer (b : Buffer) (p len : Nat) : Except BadAccess Buffer := do
  let b ← printableLoop (len - 1) b p
  b.store (p + (len - 1)) 0

section Query
variable (logLevel : Int)

/-- `log_log` with a text; a message above the log level is not made. -/
def logLog (type : Int) (b : Buffer) (p : Nat) : Except BadAccess Unit :=
  if logLevel < type then .ok ()
  else do
    let _ ← b.text p
    .ok ()

/-- The end of the branches for a protocol error. -/
def protocolError (b : Buffer) (p len : Nat) : Except BadAccess Answer := do
  let b ← spamdPrintableBuffer b p len
  logLog logLevel logErr b p
  .ok .failed

/-! ## The results -/

/-- The loop over the symbols.  `q + 1` is behind `p`, so that `p` is past the buffer
after as many turns as there are places. -/
def symbolLoop : Nat → Buffer → Nat → Except BadAccess (List Bytes)
  | 0, _, p => .error (.read p)
  | turns + 1, b, p => do
      match ← b.strchr p 44 with
      | none =>
          let symbol ← b.text p
          .ok [symbol]
      | some q =>
          let b ← b.store q 0
          let symbol ← b.text p
          let rest ← symbolLoop turns b (q + 1)
          .ok (symbol :: rest)

/-- The symbols, which start at `p`. -/
def spamdSymbols (b : Buffer) (p : Nat) (spam : Bool) (score : Bytes) : Except BadAccess Answer := do
  match ← b.strchr p 13 with
  | none => .ok .failed
  | some q =>
      let b ← b.store q 0
      let _ ← b.text p
      let symbols ← symbolLoop b.room b p
      .ok (.scored spam score symbols)

/-- From "Cut score" on. -/
def spamdScore (b : Buffer) (p : Nat) (spam : Bool) : Except BadAccess Answer := do
  match ← b.strchr p 32 with
  | none => .ok .failed
  | some q =>
      let b ← b.store q 0
      let score ← b.text p
      match ← b.strchr (q + 1) 13 with
      | none => .ok .failed
      | some p => spamdSymbols b (p + 4) spam score

/-- From "Parse results" on. -/
def spamdResults (b : Buffer) (p : Nat) : Except BadAccess Answer := do
  if !(← b.strncmp p spamdSpam) then protocolError logLevel b p 7
  else if ← b.strncmp (p + 6) spamdTrue then spamdScore b (p + 13) true
  else if ← b.strncmp (p + 6) spamdFalse then spamdScore b (p + 14) false
  else protocolError logLevel b (p + 6) 9

/-! ## The first line -/

/-- From the search for `EX_OK` on. -/
def spamdStatus (second : Reply bufLen) (b : Buffer) (p : Nat) : Except BadAccess Answer := do
  match ← b.strstr p spamdExOk with
  | none => .ok .failed
  | some p =>
      let rest ← b.strlen (p + 5)
      if rest ≤ 2 then
        match second with
        | .error => .ok .failed
        | .data bytes _ =>
            let b ← receive bufLen bytes
            spamdResults logLevel b 0
      else spamdResults logLevel b (p + 7)

/-- `spamd_query` from "Read response" on. -/
def spamdQuery (first : Reply (bufLen - 1)) (second : Reply bufLen) : Except BadAccess Answer :=
  match first with
  | .error => .ok .failed
  | .data bytes _ => do
      let b ← receive bufLen bytes
      if bytes.length = 0 then .ok .failed
      else if !(← b.strncmp 0 spamdSpamd) then protocolError logLevel b 0 7
      else if ← b.strncmp 6 spamdVersion then spamdStatus logLevel second b 9
      else
        -- another version is only noted
        let b ← spamdPrintableBuffer b 6 4
        logLog logLevel logNotice b 6
        spamdStatus logLevel second b 9

/-! ## The replies that are safe -/

/-- On a reply of `n` bytes, of which `rest` are left, `spamd_printable_buffer` with
`len` stays in what was received and writes inside of the buffer, and a message made
with it ends there. -/
def Printable (len n rest : Nat) : Prop :=
  len ≤ rest + 2 ∧ n + len ≤ rest + bufLen ∧ (logErr ≤ logLevel → len ≤ rest + 1)

/-- If a carriage return comes after the first space, there are three bytes behind it. -/
def ScoreFits (text : Bytes) : Prop :=
  ∀ i, CBuffer.strchr 32 (cText text) = some i →
    ∀ j, CBuffer.strchr 13 (cText (text.drop (i + 1))) = some j → i + j + 5 ≤ text.length

def ResultsFit (n : Nat) (text : Bytes) : Prop :=
  (¬ spamdSpam <+: text → Printable logLevel 7 n text.length) ∧
    ∀ verdict, text = spamdSpam ++ verdict →
      (¬ spamdTrue <+: verdict → ¬ spamdFalse <+: verdict →
        Printable logLevel 9 n verdict.length) ∧
      ∀ score, verdict = spamdTrue ++ score ∨ verdict = spamdFalse ++ score → ScoreFits score

/-- The second read leaves a place for the NUL, and the results fit. -/
def SecondFits : Reply bufLen → Prop
  | .error => True
  | .data bytes _ => bytes.length < bufLen ∧ ResultsFit logLevel bytes.length bytes

/-- What follows the version; the results are in the second reply if no more than two
bytes follow `EX_OK`. -/
def StatusFits (second : Reply bufLen) (n : Nat) (text : Bytes) : Prop :=
  ∀ i, infixAt spamdExOk (cText text) = some i →
    if (cText text).length ≤ i + 7 then SecondFits logLevel second
    else ResultsFit logLevel n (text.drop (i + 7))

def RepliesFit (first : Reply (bufLen - 1)) (second : Reply bufLen) : Prop :=
  match first with
  | .error => True
  | .data bytes _ => bytes ≠ [] →
      (¬ spamdSpamd <+: bytes → Printable logLevel 7 bytes.length bytes.length) ∧
        ∀ line, bytes = spamdSpamd ++ line →
          (¬ spamdVersion <+: line → 3 ≤ line.length) ∧
            ∀ text, line = spamdVersion ++ text → StatusFits logLevel second bytes.length text

end Query

/-! ## Printable texts -/

/-- What becomes of a byte. -/
def printable (byte : UInt8) : UInt8 := if byte.toInt8 < 33 ∨ 126 < byte.toInt8 then 46 else byte

theorem printable_ne_zero (byte : UInt8) : printable byte ≠ 0 := by
  unfold printable
  split
  · decide
  · rename_i kept
    rintro rfl
    exact kept (.inl (by decide))

theorem printableLoop_spec (count : Nat) : ∀ (b : Buffer) (p : Nat), p + count ≤ b.bytes.length →
    ∃ b', printableLoop count b p = .ok b' ∧ b'.room = b.room ∧
      b'.bytes.length = b.bytes.length ∧
      ∀ i, b'.bytes[i]? =
        if p ≤ i ∧ i < p + count then (b.bytes[i]?).map printable else b.bytes[i]? := by
  induction count with
  | zero =>
      intro b p _
      refine ⟨b, rfl, rfl, rfl, fun i => ?_⟩
      rw [if_neg (by omega)]
  | succ count ih =>
      intro b p inside
      have here : p < b.bytes.length := by omega
      have load : b.load p = .ok b.bytes[p] := by
        unfold Buffer.load
        rw [List.getElem?_eq_getElem here]
      -- in both branches the byte becomes the printable one
      have first : printableLoop (count + 1) b p =
          printableLoop count (b.set p (printable b.bytes[p])) (p + 1) := by
        rw [printableLoop, load]
        unfold printable
        by_cases bad : b.bytes[p].toInt8 < 33 ∨ 126 < b.bytes[p].toInt8
        · have fits := b.fits
          have store : b.store p 46 = .ok (b.set p 46) := if_pos (by omega)
          simp only [bind, Except.bind, if_pos bad, store]
        · have same : b.set p b.bytes[p] = b := by
            unfold Buffer.set
            congr 1
            exact List.set_getElem_self here
          simp only [bind, Except.bind, if_neg bad, same]
      obtain ⟨b', ran, room, length, spec⟩ := ih (b.set p (printable b.bytes[p])) (p + 1) (by
        simp only [Buffer.set, List.length_set]
        omega)
      refine ⟨b', by rw [first, ran], room, ?_, fun i => ?_⟩
      · rw [length]
        exact List.length_set
      · rw [spec i]
        simp only [Buffer.set, List.getElem?_set]
        by_cases same : p = i
        · subst same
          rw [if_neg (by omega), if_pos rfl, if_pos here, if_pos (by omega),
            List.getElem?_eq_getElem here]
          rfl
        · rw [if_neg same]
          by_cases later : p + 1 ≤ i ∧ i < p + 1 + count
          · rw [if_pos later, if_pos (by omega)]
          · rw [if_neg later, if_neg (by omega)]

/-- The loop reads every byte that it goes over. -/
theorem printableLoop_reads (count : Nat) : ∀ (b : Buffer) (p : Nat),
    InBounds (printableLoop count b p) → count = 0 ∨ p + count ≤ b.bytes.length := by
  induction count with
  | zero => intro b p _; exact .inl rfl
  | succ count ih =>
      intro b p bounded
      right
      rw [printableLoop] at bounded
      obtain ⟨byte, load, bounded⟩ := inBounds_bind_iff.mp bounded
      have here : p < b.bytes.length := by
        by_contra outside
        rw [Buffer.load, List.getElem?_eq_none (by omega)] at load
        cases load
      split at bounded
      · obtain ⟨b', store, bounded⟩ := inBounds_bind_iff.mp bounded
        have length : b'.bytes.length = b.bytes.length := by
          unfold Buffer.store at store
          split at store
          · cases store
            exact List.length_set
          · cases store
        have later := ih b' (p + 1) bounded
        omega
      · have later := ih b (p + 1) bounded
        omega

/-- Where the bytes and the place of the NUL are inside, the text is made printable and
ends at the NUL if that may be read. -/
theorem spamdPrintableBuffer_spec {b : Buffer} {p len : Nat} (reads : p + (len - 1) ≤ b.bytes.length)
    (writes : p + (len - 1) < b.room) :
    ∃ b', spamdPrintableBuffer b p len = .ok b' ∧ b'.bytes.length = b.bytes.length ∧
      ((0 : UInt8) ∈ b'.bytes.drop p ↔ p + (len - 1) < b.bytes.length) ∧
      (p + (len - 1) < b.bytes.length → b'.bytes[p + (len - 1)]? = some 0) := by
  obtain ⟨b', ran, room, length, spec⟩ := printableLoop_spec (len - 1) b p reads
  have store : b'.store (p + (len - 1)) 0 = .ok (b'.set (p + (len - 1)) 0) := by
    apply if_pos
    rw [room]
    exact writes
  have ending (inside : p + (len - 1) < b.bytes.length) :
      (b'.set (p + (len - 1)) 0).bytes[p + (len - 1)]? = some 0 := by
    simp only [Buffer.set]
    rw [List.getElem?_set_self (by omega)]
  refine ⟨b'.set (p + (len - 1)) 0, ?_, ?_, ?_, ending⟩
  · simp only [spamdPrintableBuffer, bind, Except.bind, ran, store]
  · rw [← length]
    exact List.length_set
  · constructor
    · intro member
      by_contra outside
      -- all bytes that may be read from `p` on are printable
      obtain ⟨i, found⟩ := List.mem_iff_getElem?.mp member
      rw [List.getElem?_drop] at found
      simp only [Buffer.set] at found
      rw [List.set_eq_of_length_le (by omega), spec] at found
      split at found
      · obtain ⟨byte, _, zero⟩ := Option.map_eq_some_iff.mp found
        exact printable_ne_zero byte zero
      · rw [List.getElem?_eq_none (by omega)] at found
        cases found
    · intro inside
      apply List.mem_iff_getElem?.mpr
      refine ⟨len - 1, ?_⟩
      rw [List.getElem?_drop]
      exact ending inside

theorem inBounds_spamdPrintableBuffer_iff {b : Buffer} {p len : Nat} (some' : 1 < len) :
    InBounds (spamdPrintableBuffer b p len) ↔
      p + (len - 1) ≤ b.bytes.length ∧ p + (len - 1) < b.room := by
  constructor
  · intro bounded
    obtain ⟨b', ran, bounded⟩ := inBounds_bind_iff.mp bounded
    have reads : p + (len - 1) ≤ b.bytes.length := by
      have bounds := printableLoop_reads (len - 1) b p ⟨b', ran⟩
      omega
    obtain ⟨b'', ran', room, _⟩ := printableLoop_spec (len - 1) b p reads
    obtain rfl : b' = b'' := Except.ok.inj (ran.symm.trans ran')
    refine ⟨reads, ?_⟩
    by_contra outside
    rw [Buffer.store, if_neg (by omega)] at bounded
    exact not_inBounds_error _ bounded
  · rintro ⟨reads, writes⟩
    obtain ⟨b', ran, _⟩ := spamdPrintableBuffer_spec reads writes
    exact ⟨b', ran⟩

theorem inBounds_logLog_iff {logLevel type : Int} {b : Buffer} {p : Nat} :
    InBounds (logLog logLevel type b p) ↔ (type ≤ logLevel → (0 : UInt8) ∈ b.bytes.drop p) := by
  unfold logLog
  split
  · rename_i quiet
    exact iff_of_true (inBounds_ok _) fun loud => absurd loud (by omega)
  · rename_i loud
    rw [inBounds_bind_iff, ← inBounds_text_iff]
    constructor
    · rintro ⟨text, read, _⟩ _
      exact ⟨text, read⟩
    · intro read
      obtain ⟨text, read⟩ := read (by omega)
      exact ⟨text, read, inBounds_ok _⟩

/-- A protocol error is told within bounds where `len` bytes are there. -/
theorem inBounds_protocolError_iff {logLevel : Int} {b : Buffer} {p len : Nat} {rest : Bytes}
    (some' : 1 < len) (room : b.room = bufLen) (shows' : b.Shows p rest) :
    InBounds (protocolError logLevel b p len) ↔
      Printable logLevel len (p + rest.length) rest.length := by
  have length := shows'.length
  unfold protocolError Printable
  rw [inBounds_bind_iff]
  constructor
  · rintro ⟨b', ran, bounded⟩
    obtain ⟨reads, writes⟩ := (inBounds_spamdPrintableBuffer_iff some').mp ⟨b', ran⟩
    obtain ⟨b'', ran', _, ends, _⟩ := spamdPrintableBuffer_spec reads writes
    obtain rfl : b' = b'' := Except.ok.inj (ran.symm.trans ran')
    obtain ⟨_, logged, _⟩ := inBounds_bind_iff.mp bounded
    have read := inBounds_logLog_iff.mp ⟨_, logged⟩
    rw [ends] at read
    refine ⟨by omega, by omega, fun loud => ?_⟩
    have := read loud
    omega
  · rintro ⟨reads, writes, logged⟩
    obtain ⟨b', ran, _, ends, _⟩ := @spamdPrintableBuffer_spec b p len
      (by omega) (by omega)
    refine ⟨b', ran, ?_⟩
    obtain ⟨u, log⟩ : InBounds (logLog logLevel logErr b' p) := by
      rw [inBounds_logLog_iff, ends]
      intro loud
      have := logged loud
      omega
    rw [inBounds_bind_iff]
    exact ⟨u, log, inBounds_ok _⟩

/-! ## The results of a reply -/

/-- The loop over the symbols ends, and it stays inside. -/
theorem symbolLoop_inBounds (turns : Nat) : ∀ {b : Buffer} {p : Nat} {rest : Bytes}, b.Shows p rest →
    rest.length < turns → InBounds (symbolLoop turns b p) := by
  induction turns with
  | zero => intro b p rest _ few; omega
  | succ turns ih =>
      intro b p rest shows' few
      have comma := shows'.strchr (c := 44) (by decide)
      cases found : CBuffer.strchr 44 (cText rest) with
      | none =>
          rw [found] at comma
          simp only [symbolLoop, bind, Except.bind, comma, Option.map_none, shows'.text]
          exact inBounds_ok _
      | some i =>
          rw [found] at comma
          have inside := strchr_cText_lt found
          have symbol := (shows'.set_inside inside 0).text
          have later : (b.set (p + i) 0).Shows (p + i + 1) (rest.drop (i + 1)) :=
            (shows'.advance (k := i + 1) inside).set_before (Nat.lt_succ_self _) 0
          obtain ⟨symbols, ran⟩ := ih later (by rw [List.length_drop]; omega)
          simp only [symbolLoop, bind, Except.bind, comma, Option.map_some, shows'.store inside,
            symbol, ran]
          exact inBounds_ok _

/-- The symbols are taken apart within bounds if their place may be read at all. -/
theorem inBounds_spamdSymbols_iff (b : Buffer) {p : Nat} (spam : Bool) (score : Bytes)
    (ends : p < b.bytes.length → ∃ rest, b.Shows p rest) :
    InBounds (spamdSymbols b p spam score) ↔ p < b.bytes.length := by
  by_cases inside : p < b.bytes.length
  · refine iff_of_true ?_ inside
    obtain ⟨rest, shows'⟩ := ends inside
    have finish := shows'.strchr (c := 13) (by decide)
    cases found : CBuffer.strchr 13 (cText rest) with
    | none =>
        rw [found] at finish
        simp only [spamdSymbols, bind, Except.bind, finish, Option.map_none]
        exact inBounds_ok _
    | some i =>
        rw [found] at finish
        have here := strchr_cText_lt found
        have cut := shows'.set_inside here 0
        have length := cut.length
        have fits := (b.set (p + i) 0).fits
        obtain ⟨symbols, ran⟩ : InBounds (symbolLoop (b.set (p + i) 0).room (b.set (p + i) 0) p) :=
          symbolLoop_inBounds _ cut (by omega)
        simp only [spamdSymbols, bind, Except.bind, finish, Option.map_some, shows'.store here,
          cut.text, ran]
        exact inBounds_ok _
  · refine iff_of_false ?_ inside
    simp only [spamdSymbols, bind, Except.bind, strchr_past b (Nat.le_of_not_lt inside) 13]
    exact not_inBounds_error _

theorem inBounds_spamdScore_iff {b : Buffer} {p : Nat} {rest : Bytes} (spam : Bool)
    (shows' : b.Shows p rest) : InBounds (spamdScore b p spam) ↔ ScoreFits rest := by
  have space := shows'.strchr (c := 32) (by decide)
  unfold ScoreFits
  cases found : CBuffer.strchr 32 (cText rest) with
  | none =>
      rw [found] at space
      simp only [spamdScore, bind, Except.bind, space, Option.map_none]
      exact iff_of_true (inBounds_ok _) fun i other => by cases other
  | some i =>
      rw [found] at space
      have inside := strchr_cText_lt found
      have score := (shows'.set_inside inside 0).text
      have later : (b.set (p + i) 0).Shows (p + i + 1) (rest.drop (i + 1)) :=
        (shows'.advance (k := i + 1) inside).set_before (Nat.lt_succ_self _) 0
      have line := later.strchr (c := 13) (by decide)
      simp only [spamdScore, bind, Except.bind, space, Option.map_some, shows'.store inside, score,
        line, Option.some.injEq, forall_eq']
      cases found' : CBuffer.strchr 13 (cText (rest.drop (i + 1))) with
      | none =>
          refine iff_of_true (inBounds_ok _) ?_
          intro j other
          cases other
      | some j =>
          have length := later.length
          rw [List.length_drop] at length
          have ends (here : p + i + 1 + j + 4 < (b.set (p + i) 0).bytes.length) :
              ∃ symbols, (b.set (p + i) 0).Shows (p + i + 1 + j + 4) symbols := by
            have enough : j + 4 ≤ (rest.drop (i + 1)).length := by
              rw [List.length_drop]
              omega
            exact ⟨_, later.advance enough⟩
          simp only [Option.map_some, Option.some.injEq, forall_eq']
          rw [inBounds_spamdSymbols_iff _ spam _ ends]
          omega

/-- "True ; " and "False ; " are no beginnings of one text. -/
theorem spamdTrue_ne_spamdFalse (score score' : Bytes) : spamdTrue ++ score ≠ spamdFalse ++ score' := by
  intro same
  have heads : some 84 = some (70 : UInt8) := congrArg List.head? same
  exact absurd heads (by decide)

theorem inBounds_spamdResults_iff {logLevel : Int} {b : Buffer} {p : Nat} {text : Bytes}
    (room : b.room = bufLen) (shows' : b.Shows p text) :
    InBounds (spamdResults logLevel b p) ↔ ResultsFit logLevel (p + text.length) text := by
  unfold ResultsFit
  by_cases named : spamdSpam <+: text
  · obtain ⟨verdict, rfl⟩ := named
    have rest : b.Shows (p + 6) verdict := shows'.behind
    have length : p + (spamdSpam ++ verdict).length = p + 6 + verdict.length := by
      rw [List.length_append, ← Nat.add_assoc]
      rfl
    rw [length]
    have here : ¬ ¬ spamdSpam <+: spamdSpam ++ verdict := not_not.mpr (List.prefix_append ..)
    simp only [here, false_imp_iff, true_and, List.append_cancel_left_eq, forall_eq']
    have first := shows'.strncmp_true (by decide)
    by_cases isTrue : spamdTrue <+: verdict
    · obtain ⟨score, rfl⟩ := isTrue
      have yes := rest.strncmp_true (by decide)
      have scored : b.Shows (p + 13) score := rest.behind
      have beginning : ¬ ¬ spamdTrue <+: spamdTrue ++ score := not_not.mpr (List.prefix_append ..)
      simp only [spamdResults, bind, Except.bind, first, yes, Bool.not_true, Bool.false_eq_true,
        if_false, if_true, inBounds_spamdScore_iff true scored, beginning, false_imp_iff, true_and,
        spamdTrue_ne_spamdFalse, or_false, List.append_cancel_left_eq, forall_eq']
    · have no := rest.strncmp_false (by decide) isTrue
      by_cases isFalse : spamdFalse <+: verdict
      · obtain ⟨score, rfl⟩ := isFalse
        have yes := rest.strncmp_true (by decide)
        have scored : b.Shows (p + 14) score := rest.behind
        have beginning : ¬ ¬ spamdFalse <+: spamdFalse ++ score :=
          not_not.mpr (List.prefix_append ..)
        simp only [spamdResults, bind, Except.bind, first, no, yes, Bool.not_true,
          Bool.false_eq_true, if_false, if_true, inBounds_spamdScore_iff false scored, beginning,
          false_imp_iff, imp_true_iff, true_and, (spamdTrue_ne_spamdFalse _ _).symm, false_or,
          List.append_cancel_left_eq, forall_eq']
      · have no' := rest.strncmp_false (by decide) isFalse
        simp only [spamdResults, bind, Except.bind, first, no, no', Bool.not_true,
          Bool.false_eq_true, if_false, inBounds_protocolError_iff (by decide : 1 < 9) room rest]
        constructor
        · intro fits
          refine ⟨fun _ _ => fits, ?_⟩
          rintro score (same | same)
          · exact absurd ⟨score, same.symm⟩ isTrue
          · exact absurd ⟨score, same.symm⟩ isFalse
        · intro fits
          exact fits.1 isTrue isFalse
  · have no := shows'.strncmp_false (by decide) named
    simp only [spamdResults, bind, Except.bind, no, Bool.not_false, if_true,
      inBounds_protocolError_iff (by decide : 1 < 7) room shows']
    constructor
    · intro fits
      refine ⟨fun _ => fits, ?_⟩
      intro verdict same
      exact absurd ⟨verdict, same.symm⟩ named
    · intro fits
      exact fits.1 named

/-! ## The query -/

section Query
variable {logLevel : Int} {second : Reply bufLen}

theorem inBounds_second_iff {bytes : Bytes} (fits : bytes.length ≤ bufLen) :
    InBounds (receive bufLen bytes >>= fun b => spamdResults logLevel b 0) ↔
      SecondFits logLevel (.data bytes fits) := by
  unfold SecondFits
  rw [inBounds_bind_iff]
  constructor
  · rintro ⟨b, received, bounded⟩
    obtain ⟨shows', room⟩ := receive_shows received
    have results := (inBounds_spamdResults_iff room shows').mp bounded
    rw [Nat.zero_add] at results
    exact ⟨inBounds_receive_iff.mp ⟨b, received⟩, results⟩
  · rintro ⟨small, results⟩
    obtain ⟨b, received⟩ := inBounds_receive_iff.mpr small
    obtain ⟨shows', room⟩ := receive_shows received
    refine ⟨b, received, (inBounds_spamdResults_iff room shows').mpr ?_⟩
    rw [Nat.zero_add]
    exact results

theorem inBounds_spamdStatus_iff {b : Buffer} {p : Nat} {text : Bytes} (room : b.room = bufLen)
    (shows' : b.Shows p text) :
    InBounds (spamdStatus logLevel second b p) ↔
      StatusFits logLevel second (p + text.length) text := by
  have status := shows'.strstr spamdExOk
  unfold StatusFits
  cases found : infixAt spamdExOk (cText text) with
  | none =>
      rw [found] at status
      simp only [spamdStatus, bind, Except.bind, status, Option.map_none]
      exact iff_of_true (inBounds_ok _) fun i other => by cases other
  | some i =>
      rw [found] at status
      have ends : i + 5 ≤ (cText text).length := infixAt_le _ found
      have most := cText_length_le text
      have rest : b.Shows (p + i + 5) (text.drop (i + 5)) := shows'.advance (k := i + 5) (by omega)
      have length := rest.strlen
      rw [cText_drop text ends, List.length_drop] at length
      simp only [Option.some.injEq, forall_eq']
      simp only [spamdStatus, bind, Except.bind, status, Option.map_some, length]
      by_cases short : (cText text).length ≤ i + 7
      · rw [if_pos short, if_pos (by omega)]
        cases second with
        | error => exact iff_of_true (inBounds_ok _) trivial
        | data bytes fits => exact inBounds_second_iff fits
      · have results : b.Shows (p + i + 7) (text.drop (i + 7)) :=
          shows'.advance (k := i + 7) (by omega)
        have all : p + i + 7 + (text.drop (i + 7)).length = p + text.length := by
          rw [List.length_drop]
          omega
        rw [if_neg short, if_neg (by omega), inBounds_spamdResults_iff room results, all]

/-- After a mismatch of the version nothing more is found, as the text ends there. -/
theorem inBounds_mismatch_iff {b : Buffer} {line : Bytes} (room : b.room = bufLen)
    (shows' : b.Shows 6 line) :
    InBounds (spamdPrintableBuffer b 6 4 >>= fun b => logLog logLevel logNotice b 6 >>= fun _ =>
      spamdStatus logLevel second b 9) ↔ 3 ≤ line.length := by
  have length := shows'.length
  rw [inBounds_bind_iff]
  constructor
  · rintro ⟨b', ran, bounded⟩
    obtain ⟨reads, writes⟩ := (inBounds_spamdPrintableBuffer_iff (by decide)).mp ⟨b', ran⟩
    obtain ⟨b'', ran', same, _, _⟩ := spamdPrintableBuffer_spec reads writes
    obtain rfl : b' = b'' := Except.ok.inj (ran.symm.trans ran')
    obtain ⟨_, _, bounded⟩ := inBounds_bind_iff.mp bounded
    by_contra short
    have past := strstr_past b' (p := 9) (by omega) spamdExOk
    simp only [spamdStatus, bind, Except.bind, past] at bounded
    exact not_inBounds_error _ bounded
  · intro enough
    obtain ⟨b', ran, same, ends, nul⟩ := @spamdPrintableBuffer_spec b 6 4
      (by omega) (by rw [room]; decide)
    refine ⟨b', ran, ?_⟩
    have inside : 6 + (4 - 1) < b.bytes.length := by omega
    obtain ⟨u, logged⟩ : InBounds (logLog logLevel logNotice b' 6) := by
      rw [inBounds_logLog_iff, ends]
      exact fun _ => inside
    rw [inBounds_bind_iff]
    refine ⟨u, logged, ?_⟩
    have nothing : b'.strstr 9 spamdExOk = .ok none := by
      have here : 9 < b'.bytes.length := by omega
      have zero : b'.bytes[9] = 0 := by
        have found := nul inside
        rw [List.getElem?_eq_getElem here] at found
        exact Option.some.inj found
      unfold Buffer.strstr Buffer.scan
      rw [List.drop_eq_getElem_cons here, zero]
      rfl
    simp only [spamdStatus, bind, Except.bind, nothing]
    exact inBounds_ok _

/-- Every access of `spamd_query` to its buffer while it takes the replies of spamd apart
is inside, and every read is of what was received last, exactly when the replies fit. -/
theorem spamdQuery_inBounds_iff (logLevel : Int) (first : Reply (bufLen - 1)) (second : Reply bufLen) :
    InBounds (spamdQuery logLevel first second) ↔ RepliesFit logLevel first second := by
  cases first with
  | error => exact iff_of_true (inBounds_ok _) trivial
  | data bytes fits =>
      have small : bytes.length < bufLen := Nat.lt_of_le_of_lt fits (by decide)
      obtain ⟨b, received⟩ := inBounds_receive_iff.mpr small
      obtain ⟨shows', room⟩ := receive_shows received
      simp only [spamdQuery, RepliesFit, bind, Except.bind, received]
      by_cases empty : bytes = []
      · subst empty
        exact iff_of_true (inBounds_ok _) fun some' => absurd rfl some'
      · have some' : ¬ bytes.length = 0 := fun none' => empty (List.length_eq_zero_iff.mp none')
        rw [if_neg some']
        simp only [ne_eq, empty, not_false_eq_true, forall_const]
        by_cases named : spamdSpamd <+: bytes
        · obtain ⟨line, rfl⟩ := named
          have rest : b.Shows 6 line := by
            have behind := shows'.behind
            exact behind
          have length : (spamdSpamd ++ line).length = 6 + line.length := List.length_append
          have here : ¬ ¬ spamdSpamd <+: spamdSpamd ++ line := not_not.mpr (List.prefix_append ..)
          have head := shows'.strncmp_true (by decide)
          simp only [here, false_imp_iff, true_and, List.append_cancel_left_eq, forall_eq', head,
            Bool.not_true, Bool.false_eq_true, if_false]
          by_cases version : spamdVersion <+: line
          · obtain ⟨text, rfl⟩ := version
            have status : b.Shows 9 text := rest.behind
            have same := rest.strncmp_true (by decide)
            have beginning : ¬ ¬ spamdVersion <+: spamdVersion ++ text :=
              not_not.mpr (List.prefix_append ..)
            have all : (spamdSpamd ++ (spamdVersion ++ text)).length = 9 + text.length := by
              rw [length, List.length_append, ← Nat.add_assoc]
              rfl
            simp only [same, if_true, inBounds_spamdStatus_iff room status, beginning, false_imp_iff,
              true_and, List.append_cancel_left_eq, forall_eq', all]
          · have other := rest.strncmp_false (by decide) version
            simp only [other, Bool.false_eq_true, if_false, version, not_false_eq_true, forall_const]
            refine (inBounds_mismatch_iff room rest).trans ?_
            constructor
            · intro enough
              refine ⟨enough, ?_⟩
              intro text same
              exact absurd ⟨text, same.symm⟩ version
            · intro fits'
              exact fits'.1
        · have no := shows'.strncmp_false (by decide) named
          simp only [no, Bool.not_false, if_true,
            inBounds_protocolError_iff (by decide : 1 < 7) room shows', Nat.zero_add]
          constructor
          · intro fits'
            refine ⟨fun _ => fits', ?_⟩
            intro line same
            exact absurd ⟨line, same.symm⟩ named
          · intro fits'
            exact fits'.1 named

end Query

/-- The first line of spamd. -/
def okLine : Reply (bufLen - 1) := .data (cstr "SPAMD/1.1 0 EX_OK\r\n") (by decide)

/-- A message that is spam. -/
def spamLines : Reply bufLen :=
  .data (cstr "Spam: True ; 6.5 / 5.0\r\n\r\nBAYES_99,RDNS_NONE\r\n") (by decide)

example : spamdQuery logErr okLine spamLines =
    .ok (.scored true (cstr "6.5") [cstr "BAYES_99", cstr "RDNS_NONE"]) := by rfl

/-- A single byte that is no reply is made printable over six places, and a second reply
that fills the buffer gets its NUL behind it. -/
theorem short_and_full_replies_leave_the_buffer :
    spamdQuery logErr (.data (cstr "X") (by decide)) .error = .error (.read 2) ∧
      ∀ (bytes : Bytes) (full : bytes.length = bufLen),
        spamdQuery logErr okLine (.data bytes full.le) = .error (.write bufLen) := by
  refine ⟨rfl, ?_⟩
  intro bytes full
  have second : spamdQuery logErr okLine (.data bytes full.le) =
      receive bufLen bytes >>= fun b => spamdResults logErr b 0 := rfl
  have outside : receive bufLen bytes = .error (.write bufLen) := by
    rw [receive, dif_neg (by omega), full]
  rw [second, outside]
  rfl

end Mopher.Spamd
