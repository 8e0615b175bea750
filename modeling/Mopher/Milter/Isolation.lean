import Mopher.Milter.Session

/-!
# What a message leaves behind

`milter_priv_clear_msg` is to remove the symbols of a message when it ends.  Its
loop tests `ms_stage | stages`, which is never zero, and removes nothing.  So
after the end of a message exactly those symbols are left that some callback
since `milter_connect` has stored.

Where nothing was stored the next message starts as the first one does: the ACL
finds the recipients of this message only, and what it finds does not depend on
the messages before.
-/

set_option autoImplicit false

namespace Mopher.Milter

/-- No symbol of a message is bound. -/
def Clean (mp : MilterPriv) : Prop := ∀ name, messageOnly name = true → mp.table name = none

/-- The names that the ACL of a stage binds. -/
def permitted (stage : MilterStage) (acl : AclRun) (name : String) : Prop :=
  name ∈ acl.touched ∧ ∃ mask, milterSymbols.lookup name = some mask ∧ mask &&& stage.mask ≠ 0

/-- The callback stores nothing of a message: the MTA knows no queue id, an
address does not parse, and the ACL evaluates no symbol of a message. -/
def Quiet (call : Call) : Prop :=
  call.queueId = none ∧
    match call.callback with
    | .unknown _ => True
    | .helo _ => True
    | .envfrom argv => envelopeAddress argv = none
    | .envrcpt argv => envelopeAddress argv = none
    | .data => False
    | .header _ _ => False
    | .eoh => False
    | .body _ => ∀ name, messageOnly name = true → ¬ permitted .body call.acl name
    | .eom => False
    | .abort => ∀ name, messageOnly name = true → ¬ permitted .abort call.acl name

def QuietConnect (connect : Connect) : Prop :=
  connect.initQueueId = none ∧ connect.queueId = none

/-- The names that a callback binds. -/
def Stores (call : Call) (name : String) : Prop :=
  (name = "queue_id" ∧ call.queueId ≠ none) ∨
    ∃ symbols, call.callback.handler.symbols milterPrivCreate = some symbols ∧
      (name ∈ symbols.map Prod.fst ∨ permitted call.callback.handler.stage call.acl name ∨
        (name = "recipient_list" ∧ acceptedRecipient call ≠ none))

theorem messageOnly_ne {name : String} (only : messageOnly name = true) (other : String)
    (general : messageOnly other = false) : name ≠ other := by
  rintro rfl
  rw [general] at only
  cases only

/-- The symbols by whether they are of a message. -/
theorem messageOnly_values :
    (∀ name ∈ ["queue_id", "recipient_list", "envfrom", "envrcpt", "recipients", "header_name",
        "headers", "body"], messageOnly name = true) ∧
    ∀ name ∈ ["stage", "action", "laststage", "milter_ctx", "stagename", "unknown_command", "helo",
        "id", "received"], messageOnly name = false := by
  decide

theorem messageOnly_queue_id : messageOnly "queue_id" = true := messageOnly_values.1 _ (by simp)

theorem messageOnly_recipient_list : messageOnly "recipient_list" = true := messageOnly_values.1 _ (by simp)

theorem messageOnly_stage : messageOnly "stage" = false := messageOnly_values.2 _ (by simp)

theorem messageOnly_action : messageOnly "action" = false := messageOnly_values.2 _ (by simp)

/-! ## One callback -/

theorem clearMsg_table (mp : MilterPriv) : (milterPrivClearMsg mp).table = mp.table := by
  have kept (symbols : List (String × StageMask)) : ∀ table : Table,
      symbols.foldl
        (fun table symbol =>
          if symbol.2 ||| connectionStages ≠ 0 then table else vtableRemove table symbol.1)
        table = table := by
    induction symbols with
    | nil => intro table; rfl
    | cons symbol rest ih =>
        intro table
        have never : symbol.2 ||| connectionStages ≠ 0 := by
          intro zero
          rw [Nat.or_eq_zero_iff] at zero
          exact absurd zero.2 (by decide)
        rw [List.foldl_cons, if_pos never, ih]
  exact kept milterSymbols mp.table

theorem lookupQueueId_isSome (queueId : Option Bytes) (table : Table) (name : String) :
    (lookupQueueId queueId table name).isSome = true ↔
      (table name).isSome = true ∨ (name = "queue_id" ∧ queueId ≠ none) := by
  unfold lookupQueueId
  cases bound : table "queue_id" with
  | some value =>
      constructor
      · exact .inl
      · rintro (still | ⟨rfl, -⟩)
        · exact still
        · simp [bound]
  | none =>
      cases queueId with
      | none => simp
      | some id =>
          by_cases same : name = "queue_id"
          · simp [same]
          · simp [same]

theorem saveStage_other {stage : MilterStage} {table saved : Table} {name : String}
    (success : saveStage stage table = some saved) (only : messageOnly name = true) :
    saved name = table name := by
  have notStage := messageOnly_ne only "stage" messageOnly_stage
  have notLast := messageOnly_ne only "laststage" (messageOnly_values.2 _ (by simp))
  unfold saveStage at success
  split at success
  · cases Option.some.inj success
    rfl
  · unfold vtableRename at success
    split at success
    · cases success
    · cases Option.some.inj success
      rw [vtableRemove_other _ _ _ notStage, vtableSet_other _ _ _ _ notLast]

theorem stageSymbols_other (ctx : Nat) (stage : MilterStage) (table : Table) {name : String}
    (only : messageOnly name = true) :
    vtableSetv table (stageSymbols ctx stage) name = table name := by
  have notCtx := messageOnly_ne only "milter_ctx" (messageOnly_values.2 _ (by simp))
  have notStage := messageOnly_ne only "stage" messageOnly_stage
  have notName := messageOnly_ne only "stagename" (messageOnly_values.2 _ (by simp))
  apply vtableSetv_other
  simp [stageSymbols, notStage, notCtx, notName]

/-- `milter_common_init` binds no symbol of a message but the queue id. -/
theorem commonInit_isSome {ctx : Nat} {stage : MilterStage} {queueId : Option Bytes}
    {mp next : MilterPriv} {name : String}
    (success : milterCommonInit ctx stage queueId mp = some next)
    (only : messageOnly name = true) :
    (next.table name).isSome = true ↔
      (mp.table name).isSome = true ∨ (name = "queue_id" ∧ queueId ≠ none) := by
  obtain ⟨table, saved, rfl⟩ := Option.map_eq_some_iff.mp success
  rw [lookupQueueId_isSome, stageSymbols_other _ _ _ only, saveStage_other saved only]

theorem milterAcl_isSome (stage : MilterStage) (acl : AclRun) (mp : MilterPriv) {name : String}
    (only : messageOnly name = true) :
    ((milterAcl stage acl mp).2.table name).isSome = true ↔
      (mp.table name).isSome = true ∨ permitted stage acl name := by
  have notAction := messageOnly_ne only "action" messageOnly_action
  simp only [milterAcl, vtableSet_other _ _ _ _ notAction, aclTable, permitted]
  cases mask : milterSymbols.lookup name with
  | none => simp [messageOnly, mask] at only
  | some mask =>
      cases mp.table name with
      | some value => simp
      | none => simp

theorem advance_table (callback : Callback) (mp : MilterPriv) :
    (callback.handler.advance mp).table = mp.table := by
  cases callback <;> rfl

/-- Which symbols a callback sets does not depend on the connection. -/
theorem symbols_names (callback : Callback) (mp other : MilterPriv) :
    (callback.handler.symbols mp).map (List.map Prod.fst) =
      (callback.handler.symbols other).map (List.map Prod.fst) := by
  cases callback with
  | envrcpt argv =>
      simp only [Callback.handler, milterEnvrcpt]
      cases envelopeAddress argv with
      | none => rfl
      | some pair => rfl
  | _ => rfl

theorem complete_isSome {call : Call} {mp next : MilterPriv} (name : String)
    (success : complete call mp = some next) :
    (next.table name).isSome = true ↔
      (mp.table name).isSome = true ∨
        (name = "recipient_list" ∧ acceptedRecipient call ≠ none) := by
  unfold complete at success
  cases accepted : acceptedRecipient call with
  | none =>
      rw [accepted] at success
      simp only at success
      split at success
      · cases Option.some.inj success
        simp [clearMsg_table]
      · cases Option.some.inj success
        simp
  | some address =>
      rw [accepted] at success
      obtain ⟨table, appended, result⟩ := Option.bind_eq_some_iff.mp success
      cases Option.some.inj result
      unfold vtableListAppendNew at appended
      by_cases same : name = "recipient_list"
      · subst same
        split at appended
        · cases Option.some.inj appended
          simp
        · cases Option.some.inj appended
          simp
        · cases appended
      · split at appended
        · cases Option.some.inj appended
          simp [same]
        · cases Option.some.inj appended
          simp [same]
        · cases appended

/-- After a callback those symbols of a message are bound that were bound or
that it stores. -/
theorem milterCallback_isSome {ctx : Nat} {mp next : MilterPriv} {call : Call} {name : String}
    (success : milterCallback ctx mp call = some next) (only : messageOnly name = true) :
    (next.table name).isSome = true ↔ (mp.table name).isSome = true ∨ Stores call name := by
  obtain ⟨⟨prepared, ready⟩, preparing, rest⟩ := Option.bind_eq_some_iff.mp success
  obtain ⟨first, initialised, preparing⟩ := Option.bind_eq_some_iff.mp preparing
  have afterInit := commonInit_isSome initialised only
  have names := symbols_names call.callback (call.callback.handler.advance first) milterPrivCreate
  cases symbols : call.callback.handler.symbols (call.callback.handler.advance first) with
  | none =>
      rw [symbols, Option.map_none] at names
      simp only [symbols] at preparing
      cases Option.some.inj preparing
      cases Option.some.inj rest
      rw [advance_table, afterInit]
      simp [Stores, Option.map_eq_none_iff.mp names.symm]
  | some entries =>
      rw [symbols, Option.map_some] at names
      obtain ⟨same, sameSymbols, sameNames⟩ := Option.map_eq_some_iff.mp names.symm
      simp only [symbols] at preparing
      cases Option.some.inj preparing
      rw [complete_isSome name rest, milterAcl_isSome _ _ _ only, vtableSetv_isSome, advance_table,
        afterInit, ← sameNames]
      simp only [Stores, sameSymbols, Option.some.injEq, exists_eq_left']
      -- the alternatives of the step, in the order of `Stores`
      simp only [or_assoc, or_left_comm]

/-! ## Which callbacks store something -/

theorem not_permitted_before_message {stage : MilterStage} (acl : AclRun) {name : String}
    (only : messageOnly name = true)
    (outside : connectionStages &&& stage.mask = stage.mask) : ¬ permitted stage acl name := by
  rintro ⟨-, mask, found, allowed⟩
  have disjoint : mask &&& connectionStages = 0 := by simpa [messageOnly, found] using only
  apply allowed
  rw [← outside, ← Nat.and_assoc, disjoint, Nat.zero_and]

theorem not_permitted_init (acl : AclRun) {name : String} (only : messageOnly name = true) :
    ¬ permitted .init acl name := by
  rintro ⟨-, mask, found, allowed⟩
  have disjoint : mask &&& connectionStages = 0 := by simpa [messageOnly, found] using only
  have late : ∀ symbol ∈ milterSymbols, symbol.2 &&& connectionStages = 0 →
      symbol.2 &&& MilterStage.init.mask = 0 := by decide
  obtain ⟨front, back, split, -⟩ := List.lookup_eq_some_iff.mp found
  have member : (name, mask) ∈ milterSymbols := by simp [split]
  exact allowed (late _ member disjoint)

/-- A callback that sets a symbol of a message is not quiet. -/
theorem stores_symbol {call : Call} {symbols : List (String × Value)} (name : String)
    (sets : call.callback.handler.symbols milterPrivCreate = some symbols)
    (member : name ∈ symbols.map Prod.fst) : Stores call name :=
  .inr ⟨symbols, sets, .inl member⟩

/-- A callback that accepts no recipient stores its symbols and those that the ACL evaluates. -/
theorem Stores.source {call : Call} {name : String} {symbols : List (String × Value)}
    (stores : Stores call name) (noQueue : call.queueId = none)
    (sets : call.callback.handler.symbols milterPrivCreate = some symbols)
    (noRecipient : acceptedRecipient call = none) :
    name ∈ symbols.map Prod.fst ∨ permitted call.callback.handler.stage call.acl name := by
  rcases stores with ⟨-, queued⟩ | ⟨others, sets', stored⟩
  · exact (queued noQueue).elim
  · cases Option.some.inj (sets.symm.trans sets')
    rcases stored with member | allowed | ⟨-, accepted⟩
    · exact .inl member
    · exact .inr allowed
    · exact (accepted noRecipient).elim

theorem Quiet.silent {call : Call} (quiet : Quiet call) {name : String} (only : messageOnly name = true) :
    ¬ Stores call name := by
  obtain ⟨callback, queueId, acl⟩ := call
  obtain ⟨noQueue, quiet⟩ := quiet
  intro stores
  -- Only the early callbacks and those without symbols of a message are left.
  cases callback with
  | unknown cmd =>
      rcases stores.source noQueue rfl rfl with member | allowed
      · simp only [List.map_cons, List.map_nil, List.mem_singleton] at member
        exact messageOnly_ne only "unknown_command" (messageOnly_values.2 _ (by simp)) member
      · have outside : connectionStages &&& MilterStage.unknown.mask = MilterStage.unknown.mask := by decide
        exact not_permitted_before_message acl only outside allowed
  | helo helostr =>
      rcases stores.source noQueue rfl rfl with member | allowed
      · simp only [List.map_cons, List.map_nil, List.mem_singleton] at member
        exact messageOnly_ne only "helo" (messageOnly_values.2 _ (by simp)) member
      · have outside : connectionStages &&& MilterStage.helo.mask = MilterStage.helo.mask := by decide
        exact not_permitted_before_message acl only outside allowed
  | envfrom argv =>
      rcases stores with ⟨-, queued⟩ | ⟨symbols, sets, -⟩
      · exact queued noQueue
      · simp [Callback.handler, milterEnvfrom, show envelopeAddress argv = none from quiet] at sets
  | envrcpt argv =>
      rcases stores with ⟨-, queued⟩ | ⟨symbols, sets, -⟩
      · exact queued noQueue
      · simp [Callback.handler, milterEnvrcpt, show envelopeAddress argv = none from quiet] at sets
  | data => exact quiet
  | header headerf headerv => exact quiet
  | eoh => exact quiet
  | body chunk =>
      rcases stores.source noQueue rfl rfl with member | allowed
      · simp at member
      · exact quiet name only allowed
  | eom => exact quiet
  | abort =>
      rcases stores.source noQueue rfl rfl with member | allowed
      · simp at member
      · exact quiet name only allowed

theorem quiet_of_silent {call : Call}
    (silent : ∀ name, messageOnly name = true → ¬ Stores call name) : Quiet call := by
  obtain ⟨callback, queueId, acl⟩ := call
  constructor
  · by_contra queued
    exact silent "queue_id" messageOnly_queue_id (.inl ⟨rfl, queued⟩)
  · cases callback with
    | unknown cmd => exact trivial
    | helo helostr => exact trivial
    | envfrom argv =>
        show envelopeAddress argv = none
        cases parsed : envelopeAddress argv with
        | none => rfl
        | some pair =>
            exfalso
            apply silent "envfrom" (messageOnly_values.1 _ (by simp))
            apply stores_symbol "envfrom" (by simp [Callback.handler, milterEnvfrom, parsed]; rfl)
            simp
    | envrcpt argv =>
        show envelopeAddress argv = none
        cases parsed : envelopeAddress argv with
        | none => rfl
        | some pair =>
            exfalso
            apply silent "envrcpt" (messageOnly_values.1 _ (by simp))
            apply stores_symbol "envrcpt" (by simp [Callback.handler, milterEnvrcpt, parsed]; rfl)
            simp
    | data => exact silent "recipients" (messageOnly_values.1 _ (by simp)) (stores_symbol _ rfl (by simp))
    | header headerf headerv =>
        exact silent "header_name" (messageOnly_values.1 _ (by simp)) (stores_symbol _ rfl (by simp))
    | eoh => exact silent "headers" (messageOnly_values.1 _ (by simp)) (stores_symbol _ rfl (by simp))
    | body chunk =>
        intro name only allowed
        exact silent name only (.inr ⟨[], rfl, .inr (.inl allowed)⟩)
    | eom => exact silent "body" (messageOnly_values.1 _ (by simp)) (stores_symbol _ rfl (by simp))
    | abort =>
        intro name only allowed
        exact silent name only (.inr ⟨[], rfl, .inr (.inl allowed)⟩)

theorem quiet_iff (call : Call) :
    Quiet call ↔ ∀ name, messageOnly name = true → ¬ Stores call name :=
  ⟨fun quiet _ only => quiet.silent only, quiet_of_silent⟩

/-! ## A connection -/

theorem clean_iff_not_isSome (mp : MilterPriv) :
    Clean mp ↔ ∀ name, messageOnly name = true → ¬ (mp.table name).isSome = true := by
  simp [Clean]

theorem milterCallback_clean_iff {ctx : Nat} {mp next : MilterPriv} {call : Call}
    (success : milterCallback ctx mp call = some next) :
    Clean next ↔ Clean mp ∧ Quiet call := by
  rw [clean_iff_not_isSome, clean_iff_not_isSome, quiet_iff]
  constructor
  · intro clean
    constructor
    · intro name only bound
      exact clean name only ((milterCallback_isSome success only).mpr (.inl bound))
    · intro name only stored
      exact clean name only ((milterCallback_isSome success only).mpr (.inr stored))
  · rintro ⟨clean, quiet⟩ name only bound
    rcases (milterCallback_isSome success only).mp bound with before | stored
    · exact clean name only before
    · exact quiet name only stored

theorem milterRun_clean_iff (ctx : Nat) (calls : List Call) : ∀ mp next : MilterPriv,
    milterRun ctx mp calls = some next →
      (Clean next ↔ Clean mp ∧ ∀ call ∈ calls, Quiet call) := by
  induction calls with
  | nil =>
      intro mp next success
      cases Option.some.inj success
      simp
  | cons call rest ih =>
      intro mp next success
      obtain ⟨middle, first, later⟩ := Option.bind_eq_some_iff.mp success
      rw [ih middle next later, milterCallback_clean_iff first]
      simp [and_assoc]

theorem milterConnect_clean_iff {ctx : Nat} {connect : Connect} {mp : MilterPriv}
    (success : milterConnect ctx connect = some mp) : Clean mp ↔ QuietConnect connect := by
  simp only [milterConnect, milterInitStage, Option.bind_eq_bind, Option.bind_eq_some_iff,
    Option.pure_def, Option.some.injEq] at success
  obtain ⟨-, ⟨first, firstInit, rfl⟩, second, secondInit, success⟩ := success
  have notId {name : String} (only : messageOnly name = true) :=
    messageOnly_ne only "id" (messageOnly_values.2 _ (by simp))
  have notReceived {name : String} (only : messageOnly name = true) :=
    messageOnly_ne only "received" (messageOnly_values.2 _ (by simp))
  have binds {name : String} (only : messageOnly name = true) :
      (mp.table name).isSome = true ↔
        name = "queue_id" ∧ (connect.initQueueId ≠ none ∨ connect.queueId ≠ none) := by
    have atSecond := commonInit_isSome secondInit only
    rw [milterAcl_isSome _ _ _ only, vtableSetv_isSome, commonInit_isSome firstInit only] at atSecond
    have absent : (milterPrivCreate.table name).isSome = false := rfl
    simp only [List.map_cons, List.map_nil, List.mem_cons, List.not_mem_nil, or_false, notId only,
      notReceived only, absent, Bool.false_eq_true, not_permitted_init _ only, false_or] at atSecond
    cases client : connect.client with
    | none =>
        rw [client] at success
        cases Option.some.inj success
        rw [atSecond]
        tauto
    | some known =>
        rw [client] at success
        cases Option.some.inj success
        have notClient : name ∉ (clientSymbols known).map Prod.fst := by
          intro member
          have general : ∀ other ∈ (clientSymbols known).map Prod.fst,
              messageOnly other = false := by
            simp only [clientSymbols, List.map_cons, List.map_nil]
            decide
          rw [general name member] at only
          cases only
        have notAllowed : ¬ permitted .connect connect.acl name :=
          not_permitted_before_message _ only (by decide)
        rw [milterAcl_isSome _ _ _ only, vtableSetv_isSome, atSecond]
        simp only [notClient, false_or, notAllowed, or_false]
        tauto
  rw [clean_iff_not_isSome]
  constructor
  · intro clean
    have none := clean "queue_id" messageOnly_queue_id
    rw [binds messageOnly_queue_id] at none
    unfold QuietConnect
    tauto
  · rintro ⟨noInit, noConnect⟩ name only bound
    rw [binds only, noInit, noConnect] at bound
    simp at bound

theorem milterSession_clean_iff {ctx : Nat} {connect : Connect} {calls : List Call}
    {mp : MilterPriv} (success : milterSession ctx connect calls = some mp) :
    Clean mp ↔ QuietConnect connect ∧ ∀ call ∈ calls, Quiet call := by
  obtain ⟨first, connected, later⟩ := Option.bind_eq_some_iff.mp success
  rw [milterRun_clean_iff ctx calls first mp later, milterConnect_clean_iff connected]

/-! ## The next message -/

/-- Two connections that a message cannot tell apart. -/
structure Alike (mp other : MilterPriv) : Prop where
  table : ∀ name, messageOnly name = true → mp.table name = other.table name
  recipients : mp.recipients = other.recipients
  header : mp.header = other.header
  headerlen : mp.headerlen = other.headerlen
  body : mp.body = other.body
  bodylen : mp.bodylen = other.bodylen

theorem lookupQueueId_congr (queueId : Option Bytes) {table other : Table} {name : String}
    (queue : table "queue_id" = other "queue_id") (agree : table name = other name) :
    lookupQueueId queueId table name = lookupQueueId queueId other name := by
  unfold lookupQueueId
  rw [queue]
  cases other "queue_id" with
  | some value => exact agree
  | none =>
      cases queueId with
      | none => exact agree
      | some id =>
          by_cases same : name = "queue_id"
          · simp [same]
          · simp [same, agree]

theorem commonInit_alike {ctx : Nat} {stage : MilterStage} {queueId : Option Bytes}
    {mp other next otherNext : MilterPriv} (alike : Alike mp other)
    (success : milterCommonInit ctx stage queueId mp = some next)
    (otherSuccess : milterCommonInit ctx stage queueId other = some otherNext) :
    Alike next otherNext := by
  obtain ⟨table, saved, rfl⟩ := Option.map_eq_some_iff.mp success
  obtain ⟨otherTable, otherSaved, rfl⟩ := Option.map_eq_some_iff.mp otherSuccess
  have agree {name : String} (only : messageOnly name = true) :
      vtableSetv table (stageSymbols ctx stage) name =
        vtableSetv otherTable (stageSymbols ctx stage) name := by
    rw [stageSymbols_other _ _ _ only, stageSymbols_other _ _ _ only, saveStage_other saved only,
      saveStage_other otherSaved only, alike.table name only]
  refine ⟨?_, alike.recipients, alike.header, alike.headerlen, alike.body, alike.bodylen⟩
  intro name only
  exact lookupQueueId_congr queueId (agree messageOnly_queue_id) (agree only)

theorem advance_alike {mp other : MilterPriv} (callback : Callback) (alike : Alike mp other) :
    Alike (callback.handler.advance mp) (callback.handler.advance other) := by
  obtain ⟨table, recipients, header, headerlen, body, bodylen⟩ := alike
  cases callback <;> constructor <;>
    simp_all [Callback.handler, milterUnknown, milterHelo, milterEnvfrom, milterEnvrcpt, milterData,
      milterHeader, milterEoh, milterBody, milterEom, milterAbort]

/-- The symbols are computed from what alike connections share. -/
theorem symbols_alike {mp other : MilterPriv} (callback : Callback) (alike : Alike mp other) :
    callback.handler.symbols (callback.handler.advance mp) =
      callback.handler.symbols (callback.handler.advance other) := by
  obtain ⟨table, recipients, header, headerlen, body, bodylen⟩ := alike
  cases callback <;>
    simp [Callback.handler, milterUnknown, milterHelo, milterEnvfrom, milterEnvrcpt, milterData,
      milterHeader, milterEoh, milterBody, milterEom, milterAbort, recipients, header, headerlen,
      body, bodylen]

theorem prepare_alike {ctx : Nat} {call : Call} {mp other view otherView : MilterPriv}
    {ready otherReady : Bool} (alike : Alike mp other)
    (success : prepare ctx call mp = some (view, ready))
    (otherSuccess : prepare ctx call other = some (otherView, otherReady)) :
    Alike view otherView ∧ ready = otherReady := by
  obtain ⟨first, initialised, success⟩ := Option.bind_eq_some_iff.mp success
  obtain ⟨otherFirst, otherInitialised, otherSuccess⟩ := Option.bind_eq_some_iff.mp otherSuccess
  have alikeFirst := commonInit_alike alike initialised otherInitialised
  have advanced := advance_alike call.callback alikeFirst
  have symbols := symbols_alike call.callback alikeFirst
  simp only [symbols] at success
  cases entries : call.callback.handler.symbols (call.callback.handler.advance otherFirst) with
  | none =>
      simp only [entries] at success otherSuccess
      cases Option.some.inj success
      cases Option.some.inj otherSuccess
      exact ⟨advanced, rfl⟩
  | some entries' =>
      simp only [entries] at success otherSuccess
      cases Option.some.inj success
      cases Option.some.inj otherSuccess
      refine ⟨⟨?_, advanced.recipients, advanced.header, advanced.headerlen, advanced.body,
        advanced.bodylen⟩, rfl⟩
      intro name only
      exact vtableSetv_congr entries' _ _ name (advanced.table name only)

theorem milterAcl_alike {mp other : MilterPriv} (stage : MilterStage) (acl : AclRun)
    (alike : Alike mp other) :
    Alike (milterAcl stage acl mp).2 (milterAcl stage acl other).2 := by
  refine ⟨?_, alike.recipients, alike.header, alike.headerlen, alike.body, alike.bodylen⟩
  intro name only
  have notAction := messageOnly_ne only "action" messageOnly_action
  simp only [milterAcl, vtableSet_other _ _ _ _ notAction, aclTable, alike.table name only]

theorem complete_alike {call : Call} {mp other next otherNext : MilterPriv}
    (alike : Alike mp other) (success : complete call mp = some next)
    (otherSuccess : complete call other = some otherNext) : Alike next otherNext := by
  unfold complete at success otherSuccess
  cases accepted : acceptedRecipient call with
  | none =>
      simp only [accepted] at success otherSuccess
      split at success
      · rename_i ends
        rw [if_pos ends] at otherSuccess
        cases Option.some.inj success
        cases Option.some.inj otherSuccess
        refine ⟨?_, rfl, rfl, rfl, rfl, rfl⟩
        intro name only
        rw [clearMsg_table, clearMsg_table, alike.table name only]
      · rename_i goesOn
        rw [if_neg goesOn] at otherSuccess
        cases Option.some.inj success
        cases Option.some.inj otherSuccess
        exact alike
  | some address =>
      simp only [accepted, vtableListAppendNew,
        alike.table "recipient_list" messageOnly_recipient_list] at success otherSuccess
      obtain ⟨table, appended, result⟩ := Option.bind_eq_some_iff.mp success
      obtain ⟨otherTable, otherAppended, otherResult⟩ := Option.bind_eq_some_iff.mp otherSuccess
      cases Option.some.inj result
      cases Option.some.inj otherResult
      refine ⟨?_, alike.recipients, alike.header, alike.headerlen, alike.body, alike.bodylen⟩
      intro name only
      split at appended
      · rename_i unbound
        simp only [unbound] at otherAppended
        cases Option.some.inj appended
        cases Option.some.inj otherAppended
        by_cases same : name = "recipient_list"
        · simp [same]
        · simp [same, alike.table name only]
      · rename_i items bound
        simp only [bound] at otherAppended
        cases Option.some.inj appended
        cases Option.some.inj otherAppended
        by_cases same : name = "recipient_list"
        · simp [same]
        · simp [same, alike.table name only]
      · cases appended

theorem milterCallback_alike {ctx : Nat} {call : Call} {mp other next otherNext : MilterPriv}
    (alike : Alike mp other) (success : milterCallback ctx mp call = some next)
    (otherSuccess : milterCallback ctx other call = some otherNext) : Alike next otherNext := by
  obtain ⟨⟨view, ready⟩, prepared, rest⟩ := Option.bind_eq_some_iff.mp success
  obtain ⟨⟨otherView, otherReady⟩, otherPrepared, otherRest⟩ :=
    Option.bind_eq_some_iff.mp otherSuccess
  obtain ⟨alikeView, rfl⟩ := prepare_alike alike prepared otherPrepared
  cases ready with
  | false =>
      cases Option.some.inj rest
      cases Option.some.inj otherRest
      exact alikeView
  | true => exact complete_alike (milterAcl_alike _ _ alikeView) rest otherRest

theorem milterRun_alike (ctx : Nat) (calls : List Call) :
    ∀ mp other next otherNext : MilterPriv, Alike mp other →
      milterRun ctx mp calls = some next → milterRun ctx other calls = some otherNext →
      Alike next otherNext := by
  induction calls with
  | nil =>
      intro mp other next otherNext alike success otherSuccess
      cases Option.some.inj success
      cases Option.some.inj otherSuccess
      exact alike
  | cons call rest ih =>
      intro mp other next otherNext alike success otherSuccess
      obtain ⟨middle, first, later⟩ := Option.bind_eq_some_iff.mp success
      obtain ⟨otherMiddle, otherFirst, otherLater⟩ := Option.bind_eq_some_iff.mp otherSuccess
      exact ih middle otherMiddle next otherNext (milterCallback_alike alike first otherFirst)
        later otherLater

/-! ## The recipients of a message -/

def recipientList : List Bytes → Option Value
  | [] => none
  | addresses => some (.list (addresses.map fun address => some (.string address)))

def acceptedRecipients (calls : List Call) : List Bytes := calls.filterMap acceptedRecipient

/-- The callbacks that precede the data of a message. -/
def beforeData (call : Call) : Prop :=
  call.callback.handler.stage ∈ [MilterStage.unknown, .helo, .envfrom, .envrcpt]

theorem symbols_recipient_list {callback : Callback} {mp : MilterPriv}
    {symbols : List (String × Value)} (sets : callback.handler.symbols mp = some symbols) :
    "recipient_list" ∉ symbols.map Prod.fst := by
  cases callback with
  | envfrom argv =>
      obtain ⟨pair, -, rest⟩ := Option.bind_eq_some_iff.mp sets
      cases Option.some.inj rest
      simp
  | envrcpt argv =>
      obtain ⟨pair, -, rest⟩ := Option.bind_eq_some_iff.mp sets
      cases Option.some.inj rest
      simp
  | header headerf headerv =>
      cases Option.some.inj sets
      simp only [List.map_append, List.mem_append, not_or]
      refine ⟨⟨by simp, ?_⟩, ?_⟩
      · split <;> simp
      · split <;> simp
  | _ =>
      cases Option.some.inj sets
      simp

theorem prepare_recipient_list {ctx : Nat} {call : Call} {mp view : MilterPriv} {ready : Bool}
    (success : prepare ctx call mp = some (view, ready)) :
    view.table "recipient_list" = mp.table "recipient_list" := by
  have only := messageOnly_recipient_list
  have notQueue : "recipient_list" ≠ "queue_id" := by decide
  obtain ⟨first, initialised, rest⟩ := Option.bind_eq_some_iff.mp success
  have kept : first.table "recipient_list" = mp.table "recipient_list" := by
    obtain ⟨table, saved, rfl⟩ := Option.map_eq_some_iff.mp initialised
    have stages := stageSymbols_other ctx call.callback.handler.stage table only
    rw [saveStage_other saved only] at stages
    rw [← stages]
    unfold lookupQueueId
    split
    · simp [notQueue]
    · rfl
  cases sets : call.callback.handler.symbols (call.callback.handler.advance first) with
  | none =>
      simp only [sets] at rest
      cases Option.some.inj rest
      rw [advance_table, kept]
  | some symbols =>
      simp only [sets] at rest
      cases Option.some.inj rest
      have unset := vtableSetv_other symbols (call.callback.handler.advance first).table
        "recipient_list" (symbols_recipient_list sets)
      exact unset.trans (by rw [advance_table, kept])

theorem milterAcl_recipient_list {call : Call} (mp : MilterPriv) (early : beforeData call) :
    (milterAcl call.callback.handler.stage call.acl mp).2.table "recipient_list" =
      mp.table "recipient_list" := by
  have stage : msOffData &&& call.callback.handler.stage.mask = 0 := by
    simp only [beforeData, List.mem_cons, List.not_mem_nil, or_false] at early
    rcases early with at' | at' | at' | at' <;> rw [at'] <;> decide
  have found : milterSymbols.lookup "recipient_list" = some msOffData := rfl
  have notAction : "recipient_list" ≠ "action" := by decide
  simp only [milterAcl, vtableSet_other _ _ _ _ notAction, aclTable, found, stage]
  cases mp.table "recipient_list" with
  | none => simp
  | some value => rfl

theorem complete_recipient_list {call : Call} {mp next : MilterPriv} {addresses : List Bytes}
    (success : complete call mp = some next)
    (before : mp.table "recipient_list" = recipientList addresses) :
    next.table "recipient_list" = recipientList (addresses ++ (acceptedRecipient call).toList) := by
  unfold complete at success
  cases accepted : acceptedRecipient call with
  | none =>
      simp only [accepted] at success
      split at success
      · cases Option.some.inj success
        simp [clearMsg_table, before]
      · cases Option.some.inj success
        simp [before]
  | some address =>
      simp only [accepted, vtableListAppendNew, before] at success
      cases addresses with
      | nil =>
          cases Option.some.inj success
          simp [recipientList]
      | cons first rest =>
          cases Option.some.inj success
          simp [recipientList]

theorem milterCallback_recipient_list {ctx : Nat} {call : Call} {mp next : MilterPriv}
    {addresses : List Bytes} (early : beforeData call)
    (success : milterCallback ctx mp call = some next)
    (before : mp.table "recipient_list" = recipientList addresses) :
    next.table "recipient_list" = recipientList (addresses ++ (acceptedRecipient call).toList) := by
  obtain ⟨⟨view, ready⟩, prepared, rest⟩ := Option.bind_eq_some_iff.mp success
  have atView := prepare_recipient_list prepared
  cases ready with
  | true =>
      apply complete_recipient_list rest
      rw [milterAcl_recipient_list view early, atView, before]
  | false =>
      cases Option.some.inj rest
      have rejected : acceptedRecipient call = none := by
        obtain ⟨first, -, choice⟩ := Option.bind_eq_some_iff.mp prepared
        cases sets : call.callback.handler.symbols (call.callback.handler.advance first) with
        | some symbols => simp [sets] at choice
        | none =>
            obtain ⟨callback, queueId, acl⟩ := call
            cases callback with
            | envrcpt argv =>
                have unparsed : envelopeAddress argv = none := by
                  cases parsed : envelopeAddress argv with
                  | none => rfl
                  | some pair => simp [Callback.handler, milterEnvrcpt, parsed] at sets
                simp [acceptedRecipient, unparsed]
            | _ => rfl
      rw [atView, before, rejected, Option.toList_none, List.append_nil]

theorem milterRun_recipient_list (ctx : Nat) (calls : List Call) :
    ∀ (mp next : MilterPriv) (addresses : List Bytes), (∀ call ∈ calls, beforeData call) →
      milterRun ctx mp calls = some next →
      mp.table "recipient_list" = recipientList addresses →
      next.table "recipient_list" = recipientList (addresses ++ acceptedRecipients calls) := by
  induction calls with
  | nil =>
      intro mp next addresses _ success before
      cases Option.some.inj success
      simpa [acceptedRecipients] using before
  | cons call rest ih =>
      intro mp next addresses early success before
      obtain ⟨middle, first, later⟩ := Option.bind_eq_some_iff.mp success
      have here := milterCallback_recipient_list (early call (by simp)) first before
      have result := ih middle next _ (fun c member => early c (by simp [member])) later here
      rw [result]
      cases accepted : acceptedRecipient call with
      | none => simp [acceptedRecipients, accepted]
      | some address => simp [acceptedRecipients, accepted]

/-! ## Isolation of messages -/

/-- The connection up to here stored nothing of a message. -/
def QuietSession (connect : Connect) (calls : List Call) : Prop :=
  QuietConnect connect ∧ ∀ call ∈ calls, Quiet call

/-- At every end of a message no symbol of it is left. -/
def Isolated (ctx : Nat) (connect : Connect) (calls : List Call) : Prop :=
  ∀ earlier call later mp, calls = earlier ++ call :: later →
    call.callback.endsMessage = true →
    milterSession ctx connect (earlier ++ [call]) = some mp → Clean mp

def QuietAtEnds (ctx : Nat) (connect : Connect) (calls : List Call) : Prop :=
  ∀ earlier call later mp, calls = earlier ++ call :: later →
    call.callback.endsMessage = true →
    milterSession ctx connect (earlier ++ [call]) = some mp →
    QuietSession connect (earlier ++ [call])

theorem milterRun_append (ctx : Nat) (first second : List Call) : ∀ mp : MilterPriv,
    milterRun ctx mp (first ++ second) =
      (milterRun ctx mp first).bind fun next => milterRun ctx next second := by
  induction first with
  | nil => intro mp; rfl
  | cons call rest ih =>
      intro mp
      simp only [List.cons_append, milterRun, Option.bind_assoc, ih]

/-- `milter_priv_clear_msg` does reset the fields of the private data. -/
theorem session_end_resets {ctx : Nat} {connect : Connect} {calls : List Call} {call : Call}
    {mp : MilterPriv} (ends : call.callback.endsMessage = true)
    (success : milterSession ctx connect (calls ++ [call]) = some mp) :
    mp.recipients = 0 ∧ mp.header = none ∧ mp.headerlen = 0 ∧ mp.body = none ∧ mp.bodylen = 0 := by
  obtain ⟨first, -, ran⟩ := Option.bind_eq_some_iff.mp success
  rw [milterRun_append] at ran
  obtain ⟨before, -, last⟩ := Option.bind_eq_some_iff.mp ran
  obtain ⟨after, called, same⟩ := Option.bind_eq_some_iff.mp last
  cases Option.some.inj same
  obtain ⟨⟨view, ready⟩, prepared, rest⟩ := Option.bind_eq_some_iff.mp called
  obtain ⟨initial, -, choice⟩ := Option.bind_eq_some_iff.mp prepared
  obtain ⟨callback, queueId, acl⟩ := call
  cases callback with
  | eom =>
      cases Option.some.inj choice
      cases Option.some.inj rest
      exact ⟨rfl, rfl, rfl, rfl, rfl⟩
  | abort =>
      cases Option.some.inj choice
      cases Option.some.inj rest
      exact ⟨rfl, rfl, rfl, rfl, rfl⟩
  | _ => cases ends

theorem alike_of_clean_ends {ctx : Nat} {connect otherConnect : Connect}
    {calls otherCalls : List Call} {call otherCall : Call} {mp other : MilterPriv}
    (ends : call.callback.endsMessage = true) (otherEnds : otherCall.callback.endsMessage = true)
    (success : milterSession ctx connect (calls ++ [call]) = some mp)
    (otherSuccess : milterSession ctx otherConnect (otherCalls ++ [otherCall]) = some other)
    (clean : Clean mp) (otherClean : Clean other) : Alike mp other := by
  obtain ⟨recipients, header, headerlen, body, bodylen⟩ := session_end_resets ends success
  obtain ⟨recipients', header', headerlen', body', bodylen'⟩ :=
    session_end_resets otherEnds otherSuccess
  constructor
  · intro name only
    rw [clean name only, otherClean name only]
  · rw [recipients, recipients']
  · rw [header, header']
  · rw [headerlen, headerlen']
  · rw [body, body']
  · rw [bodylen, bodylen']

/-- Messages are isolated on a connection exactly if nothing of a message was
stored before any of its messages ended.  Then the list of recipients is that of
the message, and two connections with different earlier messages show the ACL
the same symbols. -/
theorem message_isolation_iff (ctx : Nat) :
    (∀ connect calls, Isolated ctx connect calls ↔ QuietAtEnds ctx connect calls) ∧
    (∀ connect calls mp message data next view ready, QuietSession connect calls →
      milterSession ctx connect calls = some mp → (∀ call ∈ message, beforeData call) →
      milterRun ctx mp message = some next → prepare ctx data next = some (view, ready) →
      view.table "recipient_list" = recipientList (acceptedRecipients message)) ∧
    (∀ connect calls last mp otherConnect otherCalls otherLast other,
      last.callback.endsMessage = true → otherLast.callback.endsMessage = true →
      QuietSession connect (calls ++ [last]) → QuietSession otherConnect (otherCalls ++ [otherLast]) →
      milterSession ctx connect (calls ++ [last]) = some mp →
      milterSession ctx otherConnect (otherCalls ++ [otherLast]) = some other →
      ∀ message call next otherNext view otherView ready otherReady,
        milterRun ctx mp message = some next → milterRun ctx other message = some otherNext →
        prepare ctx call next = some (view, ready) →
        prepare ctx call otherNext = some (otherView, otherReady) →
        ∀ name, messageOnly name = true → view.table name = otherView.table name) := by
  refine ⟨?_, ?_, ?_⟩
  · intro connect calls
    constructor
    · intro isolated earlier call later mp split ends success
      exact (milterSession_clean_iff success).mp (isolated earlier call later mp split ends success)
    · intro quiet earlier call later mp split ends success
      exact (milterSession_clean_iff success).mpr (quiet earlier call later mp split ends success)
  · intro connect calls mp message data next view ready quiet success early ran prepared
    have clean := (milterSession_clean_iff success).mpr quiet
    have start : mp.table "recipient_list" = recipientList [] :=
      clean "recipient_list" messageOnly_recipient_list
    rw [prepare_recipient_list prepared,
      milterRun_recipient_list ctx message mp next [] early ran start, List.nil_append]
  · intro connect calls last mp otherConnect otherCalls otherLast other ends otherEnds quiet
      otherQuiet success otherSuccess message call next otherNext view otherView ready otherReady
      ran otherRan prepared otherPrepared
    have alike := alike_of_clean_ends ends otherEnds success otherSuccess
      ((milterSession_clean_iff success).mpr quiet)
      ((milterSession_clean_iff otherSuccess).mpr otherQuiet)
    have later := milterRun_alike ctx message mp other next otherNext alike ran otherRan
    exact (prepare_alike later prepared otherPrepared).1.table

/-! Two messages on one connection, the first to `a` and the second to `b`.  At
the data stage of the second the list has both recipients. -/

def passAcl : AclRun := ⟨.continue, [], fun _ => none⟩

def sampleConnect : Connect :=
  { id := cstr "0123456789abcdef", now := 1000, initQueueId := none, initAcl := passAcl,
    queueId := none, acl := passAcl,
    client := some ⟨cstr "mail.example.net", 0, some (.inet 3221225985), cstr "192.0.2.1",
      cstr "example.net"⟩ }

def plainCall (callback : Callback) : Call := ⟨callback, none, passAcl⟩

def firstMessage : List Call :=
  [plainCall (.envfrom (cstr "<s@example.net>")), plainCall (.envrcpt (cstr "<a@example.org>")),
    plainCall .data, plainCall .eoh, plainCall .eom]

def secondEnvelope : List Call :=
  [plainCall (.envfrom (cstr "<s@example.net>")), plainCall (.envrcpt (cstr "<b@example.org>"))]

theorem second_message_sees_the_first :
    ¬ Isolated 1 sampleConnect firstMessage ∧
    ∃ next view, milterSession 1 sampleConnect (firstMessage ++ secondEnvelope) = some next ∧
      prepare 1 (plainCall .data) next = some (view, true) ∧
      view.table "recipient_list" =
        some (.list [some (.string (cstr "a@example.org")),
          some (.string (cstr "b@example.org"))]) := by
  constructor
  · intro isolated
    obtain ⟨mp, success⟩ : ∃ mp, milterSession 1 sampleConnect
        (firstMessage.take 4 ++ [plainCall .eom]) = some mp := ⟨_, rfl⟩
    have clean := isolated (firstMessage.take 4) (plainCall .eom) [] mp rfl rfl success
    have quiet := ((milterSession_clean_iff success).mp clean).2 (plainCall .eom) (by simp)
    exact quiet.2
  · exact ⟨_, _, rfl, rfl, rfl⟩

/-- A sender without brackets and an abort: nothing was stored. -/
theorem refused_sender_leaves_nothing :
    Isolated 1 sampleConnect [plainCall (.envfrom (cstr "nobody")), plainCall .abort] := by
  apply ((message_isolation_iff 1).1 _ _).mpr
  intro earlier call later mp split _ _
  have quiet : ∀ c ∈ [plainCall (.envfrom (cstr "nobody")), plainCall .abort], Quiet c := by
    intro c member
    rw [List.mem_cons, List.mem_singleton] at member
    rcases member with rfl | rfl
    · exact ⟨rfl, rfl⟩
    · refine ⟨rfl, ?_⟩
      rintro name - ⟨touched, -⟩
      cases touched
  refine ⟨⟨rfl, rfl⟩, ?_⟩
  intro c member
  apply quiet
  rw [split]
  simp only [List.mem_append, List.mem_cons, List.not_mem_nil, or_false] at member ⊢
  tauto

end Mopher.Milter
