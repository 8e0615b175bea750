import Mopher.Eval.NullRead

/-!
# What the match symbols describe

`acl_match` keeps what it finds when `acl_matched` is set and `acl_stage_matched` is not
below the stage of the call.  Within one call this keeps the first rule that was
recorded.  But the symbols live as long as the connection, and its stages do not only go
up: the next recipient has the stage of the last one, and the next message starts at a
lower one.

So a call describes its own rule when every earlier call that has recorded one was made
at a lower stage, and leaves the symbols as they are otherwise.
-/

set_option autoImplicit false

namespace Mopher

/-- What `acl_match` is told about a rule. -/
structure MatchRecord where
  rule : Nat
  filename : Bytes
  line : Int
  response : AclActionType

/-- `acl_match` returns early. -/
def aclMatchKept (w : World) (stage : StageMask) : Bool :=
  match vtableGet w.symbols "acl_matched", vtableGet w.symbols "acl_stage_matched" with
  | some (.scalar (.int matched)), some (.scalar (.int stageMatched)) =>
      !(decide (stageMatched < stage)) && matched != 0
  | _, _ => false

theorem aclMatch_eq (w : World) (stage : StageMask) (rule : Nat) (filename : Bytes) (line : Int)
    (response : AclActionType) :
    aclMatch w stage rule filename line response =
      if aclMatchKept w stage then w
      else { w with symbols := vtableSetv w.symbols (matchSymbols stage rule filename line response) } :=
  rfl

/-- The match symbols are the same. -/
def SameMatch (v w : World) : Prop := ∀ name ∈ aclMatchSymbols, v.symbols name = w.symbols name

theorem SameMatch.refl (w : World) : SameMatch w w := fun _ _ => rfl

theorem SameMatch.trans {u v w : World} (first : SameMatch u v) (second : SameMatch v w) :
    SameMatch u w :=
  fun name member => (first name member).trans (second name member)

theorem SameMatch.kept {v w : World} (same : SameMatch v w) (stage : StageMask) :
    aclMatchKept v stage = aclMatchKept w stage := by
  have matched := same "acl_matched" (by simp [aclMatchSymbols])
  have stageMatched := same "acl_stage_matched" (by simp [aclMatchSymbols])
  simp only [aclMatchKept, vtableGet, matched, stageMatched]

/-- The match symbols describe a rule that was recorded at the stage. -/
def Describes (w : World) (stage : StageMask) (record : MatchRecord) : Prop :=
  ∀ entry ∈ matchSymbols stage record.rule record.filename record.line record.response,
    w.symbols entry.1 = some entry.2

theorem Describes.same {v w : World} {stage : StageMask} {record : MatchRecord}
    (described : Describes v stage record) (same : SameMatch v w) : Describes w stage record := by
  intro entry member
  rw [← same entry.1 (by
    simp only [matchSymbols, List.mem_cons, List.not_mem_nil, or_false] at member
    rcases member with rfl | rfl | rfl | rfl | rfl | rfl <;> simp [aclMatchSymbols])]
  exact described entry member

/-- A record is kept from then on, but for higher stages. -/
theorem Describes.kept {w : World} {stage : StageMask} {record : MatchRecord}
    (described : Describes w stage record) (later : StageMask) :
    aclMatchKept w later = true ↔ later ≤ stage := by
  have matched : w.symbols "acl_matched" = some (.int 1) :=
    described ("acl_matched", .int 1) (by simp [matchSymbols])
  have stageMatched : w.symbols "acl_stage_matched" = some (.int stage) :=
    described ("acl_stage_matched", .int stage) (by simp [matchSymbols])
  simp [aclMatchKept, vtableGet, matched, stageMatched, Value.isNull, Value.int]

/-! ## One call -/

/-- The first rule that is recorded. -/
def firstRecord : List (AclCommand × World) → Option MatchRecord
  | [] => none
  | (.matched _ rule filename line response, _) :: _ => some ⟨rule, filename, line, response⟩
  | _ :: rest => firstRecord rest

def AclCommand.isMatched : AclCommand → Bool
  | .matched _ _ _ _ _ => true
  | _ => false

/-- Every rule is recorded at the stage. -/
def RecordsAt (stage : StageMask) : AclCommand → Prop
  | .matched recorded _ _ _ _ => recorded = stage
  | _ => True

/-- Nothing but `acl_match` writes to the match symbols: no callback, no handler and no
operator that works in place. -/
def Untouched (env : AclEnv) (trace : List (AclCommand × World)) : Prop :=
  ∀ c v r v', (c, v) ∈ trace → c.isMatched = false → aclStep env c v = .ok (r, v') → SameMatch v v'

/-- `acl` with depth 0. -/
def aclCall (env : AclEnv) (stage : MilterStage) (table : String) (w : World) :
    Prog.Outcome AclCommand World Fault AclActionType :=
  Prog.run (aclStep env) (acl env stage.mask aclDepth table) w

theorem firstRecord_skip {c : AclCommand} (other : c.isMatched = false) (w : World)
    (rest : List (AclCommand × World)) : firstRecord ((c, w) :: rest) = firstRecord rest := by
  cases c with
  | matched _ _ _ _ _ => cases other
  | _ => rfl

theorem firstRecord_isSome {trace : List (AclCommand × World)} :
    (firstRecord trace).isSome = true ↔ ∃ c v, (c, v) ∈ trace ∧ c.isMatched = true := by
  induction trace with
  | nil => simp [firstRecord]
  | cons entry rest ih =>
      obtain ⟨c, v⟩ := entry
      cases other : c.isMatched with
      | true =>
          constructor
          · intro _
            exact ⟨c, v, List.mem_cons_self, other⟩
          · intro _
            cases c with
            | matched _ _ _ _ _ => rfl
            | _ => cases other
      | false =>
          rw [firstRecord_skip other, ih]
          constructor
          · rintro ⟨d, x, member, found⟩
            exact ⟨d, x, List.mem_cons_of_mem _ member, found⟩
          · rintro ⟨d, x, member, found⟩
            rcases List.mem_cons.mp member with same | later
            · cases same
              rw [other] at found
              cases found
            · exact ⟨d, x, later, found⟩

/-- The first `acl_match` of a stage writes, and the ones after it find their stage. -/
theorem aclMatch_describes {w : World} {stage : StageMask} (fresh : aclMatchKept w stage = false)
    (record : MatchRecord) :
    Describes (aclMatch w stage record.rule record.filename record.line record.response) stage record := by
  rw [aclMatch_eq, if_neg (by simp [fresh])]
  intro entry member
  simp only [matchSymbols, List.mem_cons, List.not_mem_nil, or_false] at member
  rcases member with rfl | rfl | rfl | rfl | rfl | rfl <;> simp [vtableSetv, matchSymbols, vtableSet]

/-- What a program that records rules at one stage leaves in the match symbols. -/
def Leaves (stage : StageMask) (w w' : World) (trace : List (AclCommand × World)) : Prop :=
  match aclMatchKept w stage, firstRecord trace with
  | false, some record => Describes w' stage record
  | _, _ => SameMatch w w'

theorem Leaves.kept {stage : StageMask} {w w' : World} {trace : List (AclCommand × World)}
    (leaves : Leaves stage w w' trace) (kept : aclMatchKept w stage = true) : SameMatch w w' := by
  simpa only [Leaves, kept] using leaves

theorem Leaves.fresh {stage : StageMask} {w w' : World} {trace : List (AclCommand × World)}
    {record : MatchRecord} (leaves : Leaves stage w w' trace) (fresh : aclMatchKept w stage = false)
    (first : firstRecord trace = some record) : Describes w' stage record := by
  simpa only [Leaves, fresh, first] using leaves

theorem Leaves.silent {stage : StageMask} {w w' : World} {trace : List (AclCommand × World)}
    (leaves : Leaves stage w w' trace) (none' : firstRecord trace = none) : SameMatch w w' := by
  unfold Leaves at leaves
  rw [none'] at leaves
  split at leaves
  · rename_i impossible
    cases impossible
  · exact leaves

/-- By induction on the program: before the first record the symbols are as they were,
and after it they are kept. -/
theorem run_leaves {env : AclEnv} {stage : StageMask} {α : Type} (p : AclM α) :
    ∀ {w w' : World} {a : α}, (Prog.run (aclStep env) p w).result = .ok (a, w') →
    Prog.Issues (RecordsAt stage) p → Untouched env (Prog.run (aclStep env) p w).trace →
    Leaves stage w w' (Prog.run (aclStep env) p w).trace := by
  induction p with
  | pure a =>
      intro w w' b returned _ _
      cases returned
      simp only [Leaves, Prog.run, firstRecord]
      split
      · rename_i impossible
        cases impossible
      · exact SameMatch.refl w
  | call c next ih =>
      intro w w' a returned issues untouched
      cases answer : aclStep env c w with
      | error e =>
          rw [Prog.run_call_error _ answer] at returned
          cases returned
      | ok answered =>
          obtain ⟨r, v⟩ := answered
          rw [Prog.run_call_ok _ answer] at returned untouched ⊢
          have rest := ih r returned (issues.2 r) fun d x s y member =>
            untouched d x s y (List.mem_cons_of_mem _ member)
          cases other : c.isMatched with
          | false =>
              have same := untouched c w r v List.mem_cons_self other answer
              unfold Leaves at rest ⊢
              rw [firstRecord_skip other, same.kept stage]
              split at rest
              · exact rest
              · exact same.trans rest
          | true =>
              cases c with
              | matched recorded rule filename line response =>
                  have here : recorded = stage := issues.1
                  subst here
                  cases answer
                  cases kept : aclMatchKept w recorded with
                  | true =>
                      rw [aclMatch_eq, if_pos kept] at rest
                      simpa only [Leaves, kept] using rest.kept kept
                  | false =>
                      have described := aclMatch_describes kept ⟨rule, filename, line, response⟩
                      have after := rest.kept ((described.kept recorded).mpr (Nat.le_refl _))
                      simpa only [Leaves, kept, firstRecord] using described.same after
              | _ => cases other

/-- The end of `aclRespond`, once the reply was sent or failed. -/
def aclRecord (stage : StageMask) (number : Nat) (rule : AclRule) (response : AclActionType)
    (sent : Bool) : AclM AclActionType := do
  if sent then
    let _ : Unit ← aclCommand (.matched stage number rule.filename rule.line response)
    return response
  else return .error

theorem aclRespond_eq (env : AclEnv) (stage : StageMask) (number : Nat) (rule : AclRule)
    (response : AclActionType) :
    aclRespond env stage number rule response =
      match rule.reply with
      | none => aclRecord stage number rule response true
      | some reply => aclSetReply env reply response >>= aclRecord stage number rule response := by
  unfold aclRespond
  cases rule.reply with
  | none => rfl
  | some reply => rfl

/-! ## Where rules are recorded -/

section Issues
variable {env : AclEnv} {stage : StageMask}

theorem recordsAt_command {c : AclCommand} (other : c.isMatched = false) :
    Prog.Issues (RecordsAt stage) (aclCommand c) := by
  apply Prog.issues_issue
  cases c with
  | matched _ _ _ _ _ => cases other
  | _ => trivial

theorem recordsAt_liftExp {α : Type} (p : EvalM α) : Prog.Issues (RecordsAt stage) (liftExp p) := by
  induction p with
  | pure a => trivial
  | call c next ih => exact ⟨trivial, ih⟩

theorem recordsAt_logMessage (level : Int) (message : Exp) :
    Prog.Issues (RecordsAt stage) (aclLogMessage level message) := by
  refine Prog.issues_bind (recordsAt_liftExp _) fun o => ?_
  cases o with
  | none => exact Prog.issues_pure _ _
  | some o => exact Prog.issues_bind (recordsAt_command rfl) fun _ => Prog.issues_pure _ _

theorem recordsAt_log (message : Exp) (level : Option Exp) :
    Prog.Issues (RecordsAt stage) (aclLog env message level) := by
  cases level with
  | none => exact recordsAt_logMessage _ _
  | some level =>
      refine Prog.issues_bind (recordsAt_liftExp _) fun o => ?_
      cases o with
      | none => exact Prog.issues_pure _ _
      | some o => exact Prog.issues_bind (recordsAt_command rfl) fun _ => recordsAt_logMessage _ _

theorem recordsAt_evalReply (exp : Exp) : Prog.Issues (RecordsAt stage) (aclEvalReply env exp) := by
  refine Prog.issues_bind (recordsAt_liftExp _) fun o => ?_
  cases o with
  | none => exact Prog.issues_pure _ _
  | some o => exact Prog.issues_bind (recordsAt_command rfl) fun _ => Prog.issues_pure _ _

theorem recordsAt_sendReply (code : Bytes) (reply : AclReply) :
    Prog.Issues (RecordsAt stage) (aclSendReply env code reply) := by
  refine Prog.issues_bind (recordsAt_evalReply _) fun message => ?_
  cases message with
  | none => exact Prog.issues_pure _ _
  | some message =>
      simp only []
      split
      · exact recordsAt_command rfl
      · refine Prog.issues_bind (recordsAt_evalReply _) fun xcode => ?_
        cases xcode with
        | none => exact Prog.issues_pure _ _
        | some xcode => exact recordsAt_command rfl

theorem recordsAt_setReply (reply : AclReply) (type : AclActionType) :
    Prog.Issues (RecordsAt stage) (aclSetReply env reply type) := by
  have sent (code : Bytes) (digit : UInt8) :
      Prog.Issues (RecordsAt stage)
        (if code.head? = some digit then aclSendReply env code reply else return false) := by
    split
    · exact recordsAt_sendReply _ _
    · exact Prog.issues_pure _ _
  refine Prog.issues_bind (recordsAt_evalReply _) fun code => ?_
  cases code with
  | none => exact Prog.issues_pure _ _
  | some code =>
      cases type with
      | reject => exact sent code 53
      | tempfail => exact sent code 52
      | greylist => exact sent code 52
      | _ => exact Prog.issues_pure _ _

theorem recordsAt_handle {nested : String → AclM AclActionType}
    (inner : ∀ table, Prog.Issues (RecordsAt stage) (nested table)) (action : AclAction) :
    Prog.Issues (RecordsAt stage) (aclHandle env nested stage action) := by
  have evaluated (exp : Exp) (f : Option Obj → AclM AclActionType)
      (rest : ∀ o, Prog.Issues (RecordsAt stage) (f o)) :
      Prog.Issues (RecordsAt stage) (liftExp (expEval exp) >>= f) :=
    Prog.issues_bind (recordsAt_liftExp _) rest
  cases action with
  | plain type => exact Prog.issues_pure _ _
  | jump table => exact Prog.issues_bind (inner table) fun _ => Prog.issues_pure _ _
  | call table => exact inner table
  | set exp =>
      refine evaluated exp _ fun o => ?_
      cases o with
      | none => exact Prog.issues_pure _ _
      | some o => exact Prog.issues_pure _ _
  | log message level => exact recordsAt_log _ _
  | tarpit delay =>
      refine evaluated delay _ fun o => ?_
      cases o with
      | none => exact Prog.issues_pure _ _
      | some o => exact recordsAt_command rfl
  | external action => exact recordsAt_command rfl

theorem recordsAt_record (number : Nat) (rule : AclRule) (response : AclActionType) (sent : Bool) :
    Prog.Issues (RecordsAt stage) (aclRecord stage number rule response sent) := by
  unfold aclRecord
  split
  · exact Prog.issues_bind (Prog.issues_issue rfl) fun _ => Prog.issues_pure _ _
  · exact Prog.issues_pure _ _

theorem recordsAt_respond (number : Nat) (rule : AclRule) (response : AclActionType) :
    Prog.Issues (RecordsAt stage) (aclRespond env stage number rule response) := by
  rw [aclRespond_eq]
  split
  · exact recordsAt_record _ _ _ true
  · exact Prog.issues_bind (recordsAt_setReply _ _) fun sent => recordsAt_record _ _ _ sent

theorem recordsAt_rules {nested : String → AclM AclActionType}
    (inner : ∀ table, Prog.Issues (RecordsAt stage) (nested table)) (rules : List AclRule) :
    ∀ number, Prog.Issues (RecordsAt stage) (aclRules env nested stage number rules) := by
  induction rules with
  | nil => intro number; exact Prog.issues_pure _ _
  | cons rule rest ih =>
      intro number
      refine Prog.issues_bind (recordsAt_liftExp _) fun holds => ?_
      split_ifs
      · exact ih (number + 1)
      · exact Prog.issues_pure _ _
      · exact Prog.issues_pure _ _
      · refine Prog.issues_bind (recordsAt_handle inner rule.action) fun response => ?_
        cases response with
        | none => exact ih (number + 1)
        | «return» => exact Prog.issues_pure _ _
        | error => exact Prog.issues_pure _ _
        | _ => exact recordsAt_respond _ _ _

theorem recordsAt_acl (depth : Nat) : ∀ table : String,
    Prog.Issues (RecordsAt stage) (acl env stage depth table) := by
  induction depth with
  | zero => intro table; exact Prog.issues_pure _ _
  | succ depth ih =>
      intro table
      unfold acl
      split
      · exact Prog.issues_pure _ _
      · exact recordsAt_rules ih _ 1

end Issues

/-! ## An action is recorded -/

/-- A program that comes to an action has recorded a rule. -/
def RecordedOr (env : AclEnv) (w : World) (p : AclM AclActionType) : Prop :=
  ∀ action w', (Prog.run (aclStep env) p w).result = .ok (action, w') →
    action = .none ∨ action = .error ∨
      ∃ c v, (c, v) ∈ (Prog.run (aclStep env) p w).trace ∧ c.isMatched = true

section Recorded
variable {env : AclEnv} {stage : StageMask}

theorem recordedOr_bind {α : Type} {w : World} {p : AclM α} {f : α → AclM AclActionType}
    (rest : ∀ a v, RecordedOr env v (f a)) : RecordedOr env w (p >>= f) := by
  intro action w' returned
  obtain ⟨a, v, _, second, trace⟩ := Prog.run_bind_inv _ returned
  rcases rest a v action w' second with nothing | failed | ⟨c, x, member, matched⟩
  · exact .inl nothing
  · exact .inr (.inl failed)
  · refine .inr (.inr ⟨c, x, ?_, matched⟩)
    rw [trace]
    exact List.mem_append_right _ member

theorem recordedOr_none (w : World) : RecordedOr env w (pure .none) := by
  intro action w' returned
  cases returned
  exact .inl rfl

theorem recordedOr_error (w : World) : RecordedOr env w (pure .error) := by
  intro action w' returned
  cases returned
  exact .inr (.inl rfl)

theorem recordedOr_record (number : Nat) (rule : AclRule) (response : AclActionType) (sent : Bool)
    (w : World) : RecordedOr env w (aclRecord stage number rule response sent) := by
  unfold aclRecord
  split
  · intro action w' _
    exact .inr (.inr ⟨_, w, List.mem_cons_self, rfl⟩)
  · exact recordedOr_error w

theorem recordedOr_respond (number : Nat) (rule : AclRule) (response : AclActionType) (w : World) :
    RecordedOr env w (aclRespond env stage number rule response) := by
  rw [aclRespond_eq]
  split
  · exact recordedOr_record _ _ _ true w
  · exact recordedOr_bind fun sent v => recordedOr_record _ _ _ sent v

theorem recordedOr_rules (nested : String → AclM AclActionType) (rules : List AclRule) :
    ∀ (number : Nat) (w : World), RecordedOr env w (aclRules env nested stage number rules) := by
  induction rules with
  | nil => intro number w; exact recordedOr_none w
  | cons rule rest ih =>
      intro number w
      refine recordedOr_bind fun holds v => ?_
      split_ifs
      · exact ih (number + 1) v
      · exact recordedOr_error v
      · exact recordedOr_error v
      · refine recordedOr_bind fun response v' => ?_
        cases response with
        | none => exact ih (number + 1) v'
        | «return» => exact recordedOr_none v'
        | error => exact recordedOr_error v'
        | _ => exact recordedOr_respond number rule _ v'

theorem recordedOr_acl (depth : Nat) (table : String) (w : World) :
    RecordedOr env w (acl env stage depth table) := by
  cases depth with
  | zero => exact recordedOr_error w
  | succ depth =>
      unfold acl
      split
      · exact recordedOr_none w
      · exact recordedOr_rules _ _ 1 w

end Recorded

/-- A call that answers with an action has a first record. -/
theorem aclCall_recorded {env : AclEnv} {stage : MilterStage} {table : String} {w w' : World}
    {action : AclActionType} (returned : (aclCall env stage table w).result = .ok (action, w'))
    (answered : action ≠ .none) (fine : action ≠ .error) :
    ∃ record, firstRecord (aclCall env stage table w).trace = some record := by
  rcases recordedOr_acl aclDepth table w action w' returned with nothing | failed | found
  · exact (answered nothing).elim
  · exact (fine failed).elim
  · exact Option.isSome_iff_exists.mp (firstRecord_isSome.mpr found)

theorem aclCall_leaves {env : AclEnv} {stage : MilterStage} {table : String} {w w' : World}
    {action : AclActionType} (returned : (aclCall env stage table w).result = .ok (action, w'))
    (untouched : Untouched env (aclCall env stage table w).trace) :
    Leaves stage.mask w w' (aclCall env stage table w).trace :=
  run_leaves _ returned (recordsAt_acl aclDepth table) untouched

/-! ## A connection -/

/-- What happens on a connection: `acl` is called at some stage, or the mailspec is
changed otherwise.  Only `acl_match` writes the match symbols. -/
inductive MailEvent where
  | acl (stage : MilterStage) (table : String)
  | between (change : World → World) (keeps : ∀ w, SameMatch w (change w))

/-- The mailspec, and the stages of the calls that have recorded a rule. -/
structure MailState where
  world : World
  recorded : List MilterStage

/-- `milter_init_stage` sets the match symbols to nothing, with stage `MS_NULL`. -/
def milterInitStage (w : World) : World :=
  if aclMatchKept w 0 then w
  else
    { w with
      symbols := vtableSetv w.symbols
        [("acl_matched", .int 0), ("acl_stage_matched", .int 0), ("acl_rule", .nil .int),
          ("acl_filename", .nil .string), ("acl_line", .nil .int), ("acl_response", .nil .string)] }

def mailStep (env : AclEnv) (s : MailState) : MailEvent → Except Fault MailState
  | .between change _ => .ok { s with world := change s.world }
  | .acl stage table =>
      let call := aclCall env stage table s.world
      call.result.map fun (_, w) =>
        { world := w
          recorded := if (firstRecord call.trace).isSome then s.recorded ++ [stage] else s.recorded }

/-- From the mailspec of a new connection. -/
def mailRun (env : AclEnv) (w : World) (events : List MailEvent) : Except Fault MailState :=
  events.foldlM (mailStep env) ⟨milterInitStage w, []⟩

/-- In every call that the run makes, only `acl_match` writes the match symbols. -/
def QuietRun (env : AclEnv) (w : World) (events : List MailEvent) : Prop :=
  ∀ before stage table s, before ++ [.acl stage table] <+: events → mailRun env w before = .ok s →
    Untouched env (aclCall env stage table s.world).trace

/-- What a record keeps later calls from recording. -/
def Remembers (s : MailState) : Prop :=
  ∀ stage : StageMask, aclMatchKept s.world stage = true ↔ ∃ earlier ∈ s.recorded, stage ≤ earlier.mask

theorem mailRun_snoc (env : AclEnv) (w : World) (events : List MailEvent) (event : MailEvent) :
    mailRun env w (events ++ [event]) = (mailRun env w events).bind fun s => mailStep env s event := by
  simp only [mailRun, List.foldlM_append, List.foldlM_cons, List.foldlM_nil, bind_pure]
  rfl

theorem QuietRun.front {env : AclEnv} {w : World} {events : List MailEvent} {event : MailEvent}
    (quiet : QuietRun env w (events ++ [event])) : QuietRun env w events :=
  fun before stage table s front reached =>
    quiet before stage table s (front.trans (List.prefix_append _ _)) reached

theorem milterInitStage_remembers {w : World} (fresh : w.symbols "acl_matched" = none) :
    Remembers ⟨milterInitStage w, []⟩ := by
  intro stage
  have written : aclMatchKept w 0 = false := by simp [aclMatchKept, vtableGet, fresh]
  rw [milterInitStage, if_neg (by simp [written])]
  simp [aclMatchKept, vtableGet, vtableSetv, vtableSet, Value.isNull, Value.int]

/-- One event: a call writes its stage where no stage that high was remembered. -/
theorem mailStep_remembers {env : AclEnv} {s s' : MailState} {event : MailEvent}
    (remembers : Remembers s) (stepped : mailStep env s event = .ok s')
    (quiet : ∀ stage table, event = .acl stage table →
      Untouched env (aclCall env stage table s.world).trace) : Remembers s' := by
  cases event with
  | between change keeps =>
      cases stepped
      intro stage
      rw [← (keeps s.world).kept stage]
      exact remembers stage
  | acl stage table =>
      cases returned : (aclCall env stage table s.world).result with
      | error fault => simp only [mailStep, returned] at stepped; cases stepped
      | ok answer =>
          obtain ⟨action, w⟩ := answer
          simp only [mailStep, returned] at stepped
          cases stepped
          have leaves := aclCall_leaves returned (quiet stage table rfl)
          intro later
          cases first : firstRecord (aclCall env stage table s.world).trace with
          | none =>
              rw [← (leaves.silent first).kept later]
              simpa using remembers later
          | some record =>
              simp only [Option.isSome_some, if_true, List.mem_append, List.mem_singleton]
              cases kept : aclMatchKept s.world stage.mask with
              | true =>
                  -- the stage is not above one that is remembered already
                  obtain ⟨earlier, member, above⟩ := (remembers stage.mask).mp kept
                  rw [← (leaves.kept kept).kept later, remembers later]
                  constructor
                  · rintro ⟨e, inside, le⟩
                    exact ⟨e, .inl inside, le⟩
                  · rintro ⟨e, inside | rfl, le⟩
                    · exact ⟨e, inside, le⟩
                    · exact ⟨earlier, member, le.trans above⟩
              | false =>
                  have lower (e : MilterStage) (member : e ∈ s.recorded) : e.mask < stage.mask := by
                    by_contra notLower
                    have := (remembers stage.mask).mpr ⟨e, member, Nat.not_lt.mp notLower⟩
                    rw [kept] at this
                    cases this
                  rw [(leaves.fresh kept first).kept later]
                  constructor
                  · intro le
                    exact ⟨stage, .inr rfl, le⟩
                  · rintro ⟨e, inside | rfl, le⟩
                    · exact le.trans (lower e inside).le
                    · exact le

/-- By induction on the events. -/
theorem mailRun_remembers {env : AclEnv} {w : World} (fresh : w.symbols "acl_matched" = none)
    (events : List MailEvent) : ∀ {s : MailState}, mailRun env w events = .ok s →
    QuietRun env w events → Remembers s := by
  induction events using List.reverseRecOn with
  | nil =>
      intro s reached _
      cases reached
      exact milterInitStage_remembers fresh
  | append_singleton events event ih =>
      intro s reached quiet
      rw [mailRun_snoc] at reached
      cases before : mailRun env w events with
      | error fault => rw [before] at reached; cases reached
      | ok s₁ =>
          rw [before] at reached
          apply mailStep_remembers (ih before quiet.front) reached
          rintro stage table rfl
          exact quiet events stage table s₁ (List.prefix_refl _) before

/-- On every connection, where nothing but `acl_match` writes the match symbols: a call
of `acl` that answers with an action leaves them describing the first rule that it has
recorded, if every earlier call that has recorded a rule was made at a lower stage.
After an earlier record at the same or a higher stage it leaves the symbols as they were. -/
theorem match_symbols_describe_the_call {env : AclEnv} {w w' : World}
    (fresh : w.symbols "acl_matched" = none) (events : List MailEvent) (stage : MilterStage)
    (table : String) (quiet : QuietRun env w (events ++ [.acl stage table])) {s : MailState}
    (reached : mailRun env w events = .ok s) {action : AclActionType}
    (returned : (aclCall env stage table s.world).result = .ok (action, w'))
    (answered : action ≠ .none) (fine : action ≠ .error) :
    ((∀ earlier ∈ s.recorded, earlier.mask < stage.mask) →
        ∃ record, firstRecord (aclCall env stage table s.world).trace = some record ∧
          Describes w' stage.mask record) ∧
      ((∃ earlier ∈ s.recorded, stage.mask ≤ earlier.mask) → SameMatch s.world w') := by
  have remembers := mailRun_remembers fresh events reached quiet.front
  have leaves := aclCall_leaves returned (quiet events stage table s (List.prefix_refl _) reached)
  constructor
  · intro lower
    obtain ⟨record, first⟩ := aclCall_recorded returned answered fine
    have notKept : aclMatchKept s.world stage.mask = false := by
      by_contra kept
      obtain ⟨earlier, member, above⟩ := (remembers stage.mask).mp (by simpa using kept)
      exact absurd (lower earlier member) (Nat.not_lt.mpr above)
    exact ⟨record, first, leaves.fresh notKept first⟩
  · intro above
    exact leaves.kept ((remembers stage.mask).mpr above)

/-- A rule that goes on with the next stage, at the stages `connect` and `helo`. -/
theorem stages_that_go_up_are_described :
    ∃ s w' record,
      mailRun (oneTable [always (.plain .continue)]) (plainWorld []) [.acl .connect "connect"] = .ok s ∧
      (aclCall (oneTable [always (.plain .continue)]) .helo "helo" s.world).result = .ok (.continue, w') ∧
      firstRecord (aclCall (oneTable [always (.plain .continue)]) .helo "helo" s.world).trace = some record ∧
      Describes w' MilterStage.helo.mask record := by
  have quiet (stage : MilterStage) (table : String) (w : World) :
      Untouched (oneTable [always (.plain .continue)])
        (aclCall (oneTable [always (.plain .continue)]) stage table w).trace := by
    -- nothing but the record is issued, and at a stage without actions not even that
    have issues : Prog.Issues (fun c => c.isMatched = true)
        (acl (oneTable [always (.plain .continue)]) stage.mask aclDepth table) := by
      cases stage <;> first | exact ⟨rfl, fun _ => trivial⟩ | exact trivial
    intro c v r v' member other
    rw [issues.trace _ w c v member] at other
    cases other
  obtain ⟨record, first, described⟩ := (match_symbols_describe_the_call (w := plainWorld []) rfl
    [.acl .connect "connect"] .helo "helo" (fun _ stage table s _ _ => quiet stage table s.world) rfl rfl
    (by decide) (by decide)).1 (by
      intro earlier member
      cases List.mem_singleton.mp member
      decide)
  exact ⟨_, _, record, rfl, rfl, first, described⟩

/-- The first recipient is accepted by the second rule.  Then the message gets its queue
id, and the second recipient is rejected by the first rule; but the symbols still tell
of the first recipient. -/
theorem second_recipient_finds_the_first_match :
    let reject : AclRule := ⟨some (.isSet (.symbol "queue_id")), .plain .reject, none, [], 3⟩
    let accept : AclRule := ⟨none, .plain .accept, none, [], 4⟩
    let env := oneTable [reject, accept]
    let queued (w : World) : World := { w with symbols := vtableSet w.symbols "queue_id" (.string []) }
    ∃ keeps s w',
      mailRun env (plainWorld []) [.acl .envrcpt "envrcpt", .between queued keeps] = .ok s ∧
      (aclCall env .envrcpt "envrcpt" s.world).result = .ok (.reject, w') ∧
      firstRecord (aclCall env .envrcpt "envrcpt" s.world).trace = some ⟨1, [], 3, .reject⟩ ∧
      w'.symbols "acl_rule" = some (.int 2) ∧
      w'.symbols "acl_line" = some (.int 4) ∧
      w'.symbols "acl_response" = some (.string (cstr "ACCEPT")) := by
  refine ⟨?_, _, _, rfl, rfl, rfl, rfl, rfl, rfl⟩
  intro w name member
  refine (vtableSet_other _ _ _ _ ?_).symm
  rintro rfl
  simp [aclMatchSymbols] at member

end Mopher
