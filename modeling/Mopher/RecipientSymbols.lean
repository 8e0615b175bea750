import Mopher.Counter
import Mopher.Greylist.Connection

/-!
# Symbols that depend on the recipient

The nine fields of a greylist record, `greylist_listed` and `counter_penpal` are
symbols of the current recipient.  Model of their callbacks
(`greylist_tuple_symbol`, `greylist_listed`, `counter_lookup`) and of how they
are registered.

A run evaluates them any number of times; in between the mailspec and the
database change in any way, except that nobody else writes these symbols.
Whether an evaluation is right depends on what earlier ones left in the
mailspec, and for `greylist_listed` on the number of recipients.
-/

set_option autoImplicit false

namespace Mopher

open Greylist (Tuple)

/-- What the callbacks read: the mailspec and the tables of the database. -/
structure SymbolState where
  mailspec : Table
  greylist : Greylist.Store
  penpal : Tuple → Option CounterRecord
  relay : Bytes → Option CounterRecord
  originCount : Bytes → Option CounterRecord
  domain : Bytes → Bytes → Option CounterRecord

def greylistTupleSymbols : List String :=
  ["greylist_created", "greylist_updated", "greylist_expire", "greylist_connections",
    "greylist_deadline", "greylist_delay", "greylist_attempts", "greylist_visa",
    "greylist_passed"]

def recordValues (record : Greylist.Record) : List Value :=
  [.int record.created, .int record.updated, .int record.expire, .int record.connections,
    .int record.deadline, .int record.delay, .int record.attempts, .int record.visa,
    .int record.passed]

def tupleKeys : List String := ["origin", "envfrom_addr", "envrcpt_addr"]

/-- A table whose key is the tuple. -/
def tupleFind {R : Type} (find : Tuple → Option R) (values : R → List Value) :
    List Value → Option (List Value)
  | [.scalar (.string origin), .scalar (.string envfrom), .scalar (.string envrcpt)] =>
      (find ⟨origin, envfrom, envrcpt⟩).map values
  | _ => none

def greylistDbt (store : Greylist.Store) : Dbt :=
  ⟨tupleKeys, greylistTupleSymbols, tupleFind store recordValues⟩

def counterFields (stem : String) : List String :=
  [stem ++ "_created", stem ++ "_updated", stem ++ "_expire", stem]

def counterValues (record : CounterRecord) : List Value :=
  [.int record.created, .int record.updated, .int record.expire, .int record.count]

def penpalDbt (find : Tuple → Option CounterRecord) : Dbt :=
  ⟨tupleKeys, counterFields "counter_penpal", tupleFind find counterValues⟩

def relayDbt (find : Bytes → Option CounterRecord) : Dbt where
  keys := ["hostaddr_str"]
  fields := counterFields "counter_relay"
  find
    | [.scalar (.string hostaddr)] => (find hostaddr).map counterValues
    | _ => none

def originDbt (find : Bytes → Option CounterRecord) : Dbt where
  keys := ["origin"]
  fields := counterFields "counter_origin"
  find
    | [.scalar (.string origin)] => (find origin).map counterValues
    | _ => none

def domainDbt (find : Bytes → Bytes → Option CounterRecord) : Dbt where
  keys := ["origin", "envfrom_domain"]
  fields := counterFields "counter_domain"
  find
    | [.scalar (.string origin), .scalar (.string domain)] =>
        (find origin domain).map counterValues
    | _ => none

def SymbolState.set (s : SymbolState) (name : String) (value : Value) : SymbolState :=
  { s with mailspec := vtableSet s.mailspec name value }

def intSymbol (table : Table) (name : String) : Option Int :=
  match vtableGet table name with
  | some (.scalar (.int n)) => some n
  | _ => none

def mailspecOps : MailspecOps SymbolState Value where
  lookup s name := vtableLookup s.mailspec name
  setNull s name := { s with mailspec := vtableSetNull s.mailspec name }
  stage s := (intSymbol s.mailspec "stage").map Int.toNat

/-- `dbt_db_load_into_table` as the end of a callback. -/
def load (dbt : Dbt) (s : SymbolState) : SymbolState × Bool :=
  match dbtDbLoadIntoTable dbt s.mailspec with
  | none => (s, false)
  | some mailspec => ({ s with mailspec }, true)

/-- The end of `greylist_listed`. -/
def listedLoad (name : String) (s : SymbolState) : SymbolState × Bool :=
  match dbtDbGetFromTable (greylistDbt s.greylist) s.mailspec with
  | none => (s, false)
  | some none => (s.set name (.int 0), true)
  | some (some _) => (s.set name (.int 1), true)

/-- `greylist_listed`.  It asks for the stage `envfrom`, in which the symbol is
not available. -/
def greylistListed (stage : StageMask) (name : String) (s : SymbolState) : SymbolState × Bool :=
  if stage = MilterStage.envfrom.mask then listedLoad name s
  else
    match intSymbol s.mailspec "recipients" with
    | none => (s, false)
    | some recipients =>
        if recipients = 1 then listedLoad name s
        else (s.set name (.nil .int), true)

def greylistTupleSymbol (stage : StageMask) (name : String) (s : SymbolState) :
    SymbolState × Bool :=
  if stage = MilterStage.envrcpt.mask then load (greylistDbt s.greylist) s
  else
    match intSymbol s.mailspec "recipients" with
    | none => (s, false)
    | some recipients =>
        if recipients = 1 then load (greylistDbt s.greylist) s
        else (s.set name (.nil .int), true)

/-- `counter_lookup`.  In a message with several recipients the symbol is set to
`NULL` first and then loaded nevertheless. -/
def counterLookup (stage : StageMask) (name : String) (s : SymbolState) : SymbolState × Bool :=
  if vtableGet s.mailspec "hostaddr_str" = none then
    ((s.set "counter_relay" (.nil .int)).set "counter_penpal" (.nil .int), true)
  else if name = "counter_penpal" then
    if stage = MilterStage.envrcpt.mask then load (penpalDbt s.penpal) s
    else
      match intSymbol s.mailspec "recipients" with
      | none => (s, false)
      | some recipients =>
          if recipients = 1 then load (penpalDbt s.penpal) s
          else load (penpalDbt s.penpal) (s.set name (.nil .int))
  else if name = "counter_origin" then load (originDbt s.originCount) s
  else if name = "counter_domain" then load (domainDbt s.domain) s
  else load (relayDbt s.relay) s

/-- The registrations of `greylist_init` and `counter_init`. -/
def registry (name : String) : Option (AclSymbol SymbolState Value) :=
  if name ∈ greylistTupleSymbols then
    some (.symbol msOffEnvrcpt (some greylistTupleSymbol) false)
  else if name = "greylist_listed" then some (.symbol msOffEnvrcpt (some greylistListed) true)
  else if name = "counter_relay" then some (.symbol msAny (some counterLookup) false)
  else if name = "counter_origin" then some (.symbol msAny (some counterLookup) false)
  else if name = "counter_domain" then some (.symbol msOffEnvfrom (some counterLookup) false)
  else if name = "counter_penpal" then some (.symbol msOffEnvrcpt (some counterLookup) true)
  else none

def evaluate (s : SymbolState) (name : String) : SymbolState × Option Value :=
  aclSymbolGet mailspecOps registry s name

/-! ## What the symbols should be -/

def currentTuple (table : Table) : Option Tuple :=
  match vtableGet table "origin", vtableGet table "envfrom_addr", vtableGet table "envrcpt_addr" with
  | some (.scalar (.string origin)), some (.scalar (.string envfrom)),
      some (.scalar (.string envrcpt)) => some ⟨origin, envfrom, envrcpt⟩
  | _, _, _ => none

def IsNull (result : Option Value) : Prop := ∃ value, result = some value ∧ value.isNull = true

/-- The symbols in question. -/
inductive RecipientSymbol : String → Prop where
  | field (name : String) (member : name ∈ greylistTupleSymbols) : RecipientSymbol name
  | listed : RecipientSymbol "greylist_listed"
  | penpal : RecipientSymbol "counter_penpal"

/-- The field of the record called `name`. -/
def recordField (name : String) (record : Greylist.Record) : Option Value :=
  (greylistTupleSymbols.zip (recordValues record)).lookup name

/-- A greylist field is that of the record, or null without a record. -/
def FieldMatches (s : SymbolState) (tuple : Tuple) (name : String) (result : Option Value) : Prop :=
  match s.greylist tuple with
  | none => IsNull result
  | some record => result = recordField name record

def ListedMatches (s : SymbolState) (tuple : Tuple) (result : Option Value) : Prop :=
  result = some (.int (s.greylist tuple).isSome.toNat)

def PenpalMatches (s : SymbolState) (tuple : Tuple) (result : Option Value) : Prop :=
  match s.penpal tuple with
  | none => IsNull result
  | some record => result = some (.int record.count)

def atEnvrcpt (s : SymbolState) : Prop := mailspecOps.stage s = some MilterStage.envrcpt.mask

/-- A later stage of a message with several recipients. -/
def severalRecipients (s : SymbolState) : Prop :=
  (∃ stage ∈ [MilterStage.data, .header, .eoh, .body, .eom, .abort, .close],
      mailspecOps.stage s = some stage.mask) ∧
    ∃ recipients, intSymbol s.mailspec "recipients" = some recipients ∧ 1 < recipients

/-- Evaluating `name` in `s` gives what the database has for the recipient, and
null in later stages of a message with several. -/
def Fresh (s : SymbolState) (name : String) : Prop :=
  ∀ tuple, currentTuple s.mailspec = some tuple →
    (atEnvrcpt s →
      (name ∈ greylistTupleSymbols → FieldMatches s tuple name (evaluate s name).2) ∧
      (name = "greylist_listed" → ListedMatches s tuple (evaluate s name).2) ∧
      (name = "counter_penpal" → PenpalMatches s tuple (evaluate s name).2)) ∧
    (severalRecipients s → IsNull (evaluate s name).2)

/-- The state in which `name` can be evaluated: nothing that differs from the
right value is left of an earlier evaluation, `greylist_listed` is asked for the
first recipient, and no penpal record can be loaded where null is expected. -/
def Unspoilt (s : SymbolState) (name : String) : Prop :=
  ∀ tuple, currentTuple s.mailspec = some tuple →
    (atEnvrcpt s →
      (name ∈ greylistTupleSymbols →
        s.mailspec name = none ∨ FieldMatches s tuple name (s.mailspec name)) ∧
      (name = "greylist_listed" → intSymbol s.mailspec "recipients" = some 1) ∧
      (name = "counter_penpal" →
        if vtableGet s.mailspec "hostaddr_str" = none then s.penpal tuple = none
        else vtableGet s.mailspec name = none ∨ PenpalMatches s tuple (s.mailspec name))) ∧
    (severalRecipients s →
      (name ∈ greylistTupleSymbols → s.mailspec name = none ∨ IsNull (s.mailspec name)) ∧
      (name = "counter_penpal" →
        vtableGet s.mailspec "hostaddr_str" = none ∨ s.penpal tuple = none))

/-! ## One evaluation -/

section Evaluation
variable {s : SymbolState} {tuple : Tuple} {name : String}

theorem keyValues_of_currentTuple {table : Table} (current : currentTuple table = some tuple) :
    keyValues table tupleKeys =
      some [.string tuple.origin, .string tuple.envfrom, .string tuple.envrcpt] := by
  unfold currentTuple at current
  split at current
  · rename_i origin envfrom envrcpt foundOrigin foundFrom foundRcpt
    cases Option.some.inj current
    simp [keyValues, tupleKeys, foundOrigin, foundFrom, foundRcpt]
  · cases current

theorem lookup_null_fields {fields : List String} (member : name ∈ fields) :
    (fields.zip (fields.map fun _ => Value.nil .int)).lookup name = some (.nil .int) := by
  induction fields with
  | nil => cases member
  | cons field rest ih =>
      simp only [List.map_cons, List.zip_cons_cons]
      by_cases same : name = field
      · subst same
        rw [List.lookup_cons_self]
      · have later : name ∈ rest := by simpa [same] using member
        rw [List.lookup_cons, beq_false_of_ne same]
        exact ih later

/-- Loading a table keyed by the tuple succeeds; each field that has no data
gets that of the record. -/
theorem load_of_currentTuple {R : Type} (find : Tuple → Option R) (values : R → List Value)
    (fields : List String) (distinct : fields.Nodup)
    (sizes : ∀ record, (values record).length = fields.length)
    (current : currentTuple s.mailspec = some tuple) (member : name ∈ fields) :
    ∃ mailspec, load ⟨tupleKeys, fields, tupleFind find values⟩ s = ({ s with mailspec }, true) ∧
      ((vtableGet s.mailspec name).isSome = true → mailspec name = s.mailspec name) ∧
      (vtableGet s.mailspec name = none →
        match find tuple with
        | none => mailspec name = some (.nil .int)
        | some record => mailspec name = (fields.zip (values record)).lookup name) := by
  have found : dbtDbGetFromTable ⟨tupleKeys, fields, tupleFind find values⟩ s.mailspec =
      some ((find tuple).map values) := by
    simp [dbtDbGetFromTable, keyValues_of_currentTuple current, tupleFind]
  generalize loaded : ((find tuple).map values).getD (fields.map fun _ => Value.nil .int) = data
  have size : data.length = fields.length := by
    rw [← loaded]
    cases find tuple with
    | none => simp
    | some record => simp [sizes]
  have names : (fields.zip data).map Prod.fst = fields := List.map_fst_zip (by omega)
  have result := foldl_loadField (fields.zip data) s.mailspec name (by rw [names]; exact distinct)
    (by rw [names]; exact member)
  refine ⟨(fields.zip data).foldl loadField s.mailspec, ?_, ?_, ?_⟩
  · simp only [load, dbtDbLoadIntoTable, found, Option.map_some, loaded]
  · intro present
    rw [result, if_pos present]
  · intro absent
    rw [result, absent]
    cases record : find tuple with
    | none =>
        rw [record] at loaded
        rw [← loaded]
        simpa using lookup_null_fields member
    | some r =>
        rw [record] at loaded
        rw [← loaded]
        simp

theorem evaluate_field {stage : StageMask} (member : name ∈ greylistTupleSymbols)
    (at' : mailspecOps.stage s = some stage) (available : msOffEnvrcpt &&& stage ≠ 0) :
    evaluate s name =
      match s.mailspec name with
      | some value => (s, some value)
      | none => symbolCompute mailspecOps (some greylistTupleSymbol) stage s name := by
  have entry : registry name = some (.symbol msOffEnvrcpt (some greylistTupleSymbol) false) := by
    simp [registry, member]
  have same : mailspecOps.lookup s name = s.mailspec name := rfl
  rw [evaluate, aclSymbolGet_symbol mailspecOps entry at' available, same]
  cases s.mailspec name <;> rfl

theorem evaluate_listed {stage : StageMask} (at' : mailspecOps.stage s = some stage)
    (available : msOffEnvrcpt &&& stage ≠ 0) :
    evaluate s "greylist_listed" =
      symbolCompute mailspecOps (some greylistListed) stage s "greylist_listed" := by
  have entry : registry "greylist_listed" =
      some (.symbol msOffEnvrcpt (some greylistListed) true) := rfl
  exact aclSymbolGet_symbol mailspecOps entry at' available

theorem evaluate_penpal {stage : StageMask} (at' : mailspecOps.stage s = some stage)
    (available : msOffEnvrcpt &&& stage ≠ 0) :
    evaluate s "counter_penpal" =
      symbolCompute mailspecOps (some counterLookup) stage s "counter_penpal" := by
  have entry : registry "counter_penpal" =
      some (.symbol msOffEnvrcpt (some counterLookup) true) := rfl
  exact aclSymbolGet_symbol mailspecOps entry at' available

theorem available_envrcpt : msOffEnvrcpt &&& MilterStage.envrcpt.mask ≠ 0 := by decide

/-- A later stage has the symbols and is neither of the two stages that the
callbacks ask for. -/
theorem available_later {stage : MilterStage}
    (later : stage ∈ [MilterStage.data, .header, .eoh, .body, .eom, .abort, .close]) :
    msOffEnvrcpt &&& stage.mask ≠ 0 ∧ stage.mask ≠ MilterStage.envrcpt.mask ∧
      stage.mask ≠ MilterStage.envfrom.mask := by
  revert stage
  decide

theorem get_none_of_unbound {table : Table} (unbound : table name = none) :
    vtableGet table name = none := by
  simp [vtableGet, unbound]

theorem isNull_null : IsNull (some (.nil .int)) := ⟨.nil .int, rfl, rfl⟩

theorem field_at_envrcpt (member : name ∈ greylistTupleSymbols)
    (current : currentTuple s.mailspec = some tuple) (at' : atEnvrcpt s) :
    FieldMatches s tuple name (evaluate s name).2 ↔
      s.mailspec name = none ∨ FieldMatches s tuple name (s.mailspec name) := by
  rw [evaluate_field member at' available_envrcpt]
  cases cached : s.mailspec name with
  | some value => simp
  | none =>
      obtain ⟨mailspec, loaded, -, fresh⟩ := load_of_currentTuple s.greylist recordValues
        greylistTupleSymbols (by simp [greylistTupleSymbols]) (fun _ => rfl) current member
      have computed : symbolCompute mailspecOps (some greylistTupleSymbol)
          MilterStage.envrcpt.mask s name = ({ s with mailspec }, mailspec name) := by
        simp only [symbolCompute, greylistTupleSymbol, greylistDbt, if_true, loaded]
        rfl
      have value := fresh (get_none_of_unbound cached)
      simp only [computed, FieldMatches, true_or, iff_true]
      cases record : s.greylist tuple with
      | none =>
          rw [record] at value
          rw [show mailspec name = _ from value]
          exact isNull_null
      | some r =>
          rw [record] at value
          exact value

theorem field_several (member : name ∈ greylistTupleSymbols) (several : severalRecipients s) :
    IsNull (evaluate s name).2 ↔ s.mailspec name = none ∨ IsNull (s.mailspec name) := by
  obtain ⟨⟨stage, later, at'⟩, recipients, count, more⟩ := several
  obtain ⟨available, notEnvrcpt, -⟩ := available_later later
  rw [evaluate_field member at' available]
  cases cached : s.mailspec name with
  | some value => simp
  | none =>
      have notOne : recipients ≠ 1 := by omega
      have computed : symbolCompute mailspecOps (some greylistTupleSymbol) stage.mask s name =
          (s.set name (.nil .int), some (.nil .int)) := by
        simp [symbolCompute, greylistTupleSymbol, notEnvrcpt, count, notOne, mailspecOps,
          SymbolState.set, vtableLookup]
      simp only [computed, true_or, iff_true]
      exact isNull_null

theorem listed_at_envrcpt (current : currentTuple s.mailspec = some tuple) (at' : atEnvrcpt s) :
    ListedMatches s tuple (evaluate s "greylist_listed").2 ↔
      intSymbol s.mailspec "recipients" = some 1 := by
  rw [evaluate_listed at' available_envrcpt]
  have notEnvfrom : MilterStage.envrcpt.mask ≠ MilterStage.envfrom.mask := by decide
  have found : dbtDbGetFromTable (greylistDbt s.greylist) s.mailspec =
      some ((s.greylist tuple).map recordValues) := by
    simp [dbtDbGetFromTable, greylistDbt, keyValues_of_currentTuple current, tupleFind]
  simp only [symbolCompute, greylistListed, if_neg notEnvfrom, ListedMatches]
  cases count : intSymbol s.mailspec "recipients" with
  | none => simp
  | some recipients =>
      by_cases one : recipients = 1
      · subst one
        cases record : s.greylist tuple with
        | none =>
            simp [listedLoad, found, record, mailspecOps, SymbolState.set, vtableLookup]
        | some r =>
            simp [listedLoad, found, record, mailspecOps, SymbolState.set, vtableLookup]
      · simp [one, mailspecOps, SymbolState.set, vtableLookup]

theorem listed_several (several : severalRecipients s) :
    IsNull (evaluate s "greylist_listed").2 := by
  obtain ⟨⟨stage, later, at'⟩, recipients, count, more⟩ := several
  obtain ⟨available, -, notEnvfrom⟩ := available_later later
  have notOne : recipients ≠ 1 := by omega
  rw [evaluate_listed at' available]
  have computed : symbolCompute mailspecOps (some greylistListed) stage.mask s "greylist_listed" =
      (s.set "greylist_listed" (.nil .int), some (.nil .int)) := by
    simp [symbolCompute, greylistListed, notEnvfrom, count, notOne, mailspecOps, SymbolState.set,
      vtableLookup]
  rw [computed]
  exact isNull_null

theorem penpalFields_nodup : (counterFields "counter_penpal").Nodup := by simp [counterFields]

theorem penpalFields_member : "counter_penpal" ∈ counterFields "counter_penpal" := by simp [counterFields]

theorem penpal_count (record : CounterRecord) :
    ((counterFields "counter_penpal").zip (counterValues record)).lookup "counter_penpal" =
      some (.int record.count) := rfl

theorem not_isNull_int (n : Int) : ¬ IsNull (some (.int n)) := by
  rintro ⟨value, same, null⟩
  cases Option.some.inj same
  cases null

/-- What a load of the penpal table leaves where there was no data. -/
theorem penpal_load (current : currentTuple s.mailspec = some tuple) :
    ∃ mailspec, load (penpalDbt s.penpal) s = ({ s with mailspec }, true) ∧
      ((vtableGet s.mailspec "counter_penpal").isSome = true →
        mailspec "counter_penpal" = s.mailspec "counter_penpal") ∧
      (vtableGet s.mailspec "counter_penpal" = none →
        match s.penpal tuple with
        | none => mailspec "counter_penpal" = some (.nil .int)
        | some record => mailspec "counter_penpal" = some (.int record.count)) := by
  obtain ⟨mailspec, loaded, kept, fresh⟩ := load_of_currentTuple s.penpal counterValues
    (counterFields "counter_penpal") penpalFields_nodup (fun _ => rfl) current penpalFields_member
  refine ⟨mailspec, loaded, kept, ?_⟩
  intro absent
  have value := fresh absent
  cases record : s.penpal tuple with
  | none =>
      rw [record] at value
      exact value
  | some r =>
      rw [record] at value
      exact value.trans (penpal_count r)

theorem penpal_at_envrcpt (current : currentTuple s.mailspec = some tuple) (at' : atEnvrcpt s) :
    PenpalMatches s tuple (evaluate s "counter_penpal").2 ↔
      if vtableGet s.mailspec "hostaddr_str" = none then s.penpal tuple = none
      else vtableGet s.mailspec "counter_penpal" = none ∨
        PenpalMatches s tuple (s.mailspec "counter_penpal") := by
  rw [evaluate_penpal at' available_envrcpt]
  by_cases unknown : vtableGet s.mailspec "hostaddr_str" = none
  · have computed : (symbolCompute mailspecOps (some counterLookup) MilterStage.envrcpt.mask s
        "counter_penpal").2 = some (.nil .int) := by
      simp [symbolCompute, counterLookup, unknown, mailspecOps, SymbolState.set, vtableLookup]
    rw [computed, if_pos unknown]
    unfold PenpalMatches
    cases s.penpal tuple with
    | none => simp [isNull_null]
    | some record => simp
  · obtain ⟨mailspec, loaded, kept, fresh⟩ := penpal_load current
    have computed : (symbolCompute mailspecOps (some counterLookup) MilterStage.envrcpt.mask s
        "counter_penpal").2 = mailspec "counter_penpal" := by
      simp only [symbolCompute, counterLookup, if_neg unknown, if_true, loaded]
      rfl
    rw [computed, if_neg unknown]
    cases present : vtableGet s.mailspec "counter_penpal" with
    | some value =>
        rw [kept (by simp [present])]
        simp
    | none =>
        have value := fresh present
        simp only [true_or, iff_true]
        unfold PenpalMatches
        cases record : s.penpal tuple with
        | none =>
            rw [record] at value
            rw [show mailspec "counter_penpal" = _ from value]
            exact isNull_null
        | some r =>
            rw [record] at value
            exact value

theorem currentTuple_set_penpal (value : Value) :
    currentTuple (s.set "counter_penpal" value).mailspec = currentTuple s.mailspec := by
  simp [currentTuple, SymbolState.set, vtableGet]

theorem penpal_several (current : currentTuple s.mailspec = some tuple)
    (several : severalRecipients s) :
    IsNull (evaluate s "counter_penpal").2 ↔
      vtableGet s.mailspec "hostaddr_str" = none ∨ s.penpal tuple = none := by
  obtain ⟨⟨stage, later, at'⟩, recipients, count, more⟩ := several
  obtain ⟨available, notEnvrcpt, -⟩ := available_later later
  have notOne : recipients ≠ 1 := by omega
  rw [evaluate_penpal at' available]
  by_cases unknown : vtableGet s.mailspec "hostaddr_str" = none
  · have computed : (symbolCompute mailspecOps (some counterLookup) stage.mask s
        "counter_penpal").2 = some (.nil .int) := by
      simp [symbolCompute, counterLookup, unknown, mailspecOps, SymbolState.set, vtableLookup]
    simp only [computed, unknown, isNull_null, true_or]
  -- The null value is overwritten with the record of the last recipient.
  · have nulled : vtableGet (s.set "counter_penpal" (.nil .int)).mailspec "counter_penpal" = none := by
      simp [SymbolState.set, vtableGet, Value.isNull]
    obtain ⟨mailspec, loaded, -, fresh⟩ :=
      penpal_load ((currentTuple_set_penpal (.nil .int)).trans current)
    have computed : (symbolCompute mailspecOps (some counterLookup) stage.mask s
        "counter_penpal").2 = mailspec "counter_penpal" := by
      have same : load (penpalDbt s.penpal) (s.set "counter_penpal" (.nil .int)) =
          ({ s with mailspec }, true) := loaded
      simp only [symbolCompute, counterLookup, if_neg unknown, if_true, if_neg notEnvrcpt, count,
        if_neg notOne, same]
      rfl
    have value := fresh nulled
    rw [computed]
    simp only [unknown, false_or]
    cases record : s.penpal tuple with
    | none =>
        have found : (s.set "counter_penpal" (.nil .int)).penpal tuple = none := record
        rw [found] at value
        rw [show mailspec "counter_penpal" = _ from value]
        simp [isNull_null]
    | some r =>
        have found : (s.set "counter_penpal" (.nil .int)).penpal tuple = some r := record
        rw [found] at value
        rw [show mailspec "counter_penpal" = _ from value]
        simp [not_isNull_int]

/-- An evaluation is right exactly if the state it starts in is unspoilt. -/
theorem fresh_iff (symbol : RecipientSymbol name) : Fresh s name ↔ Unspoilt s name := by
  have listedOther : "greylist_listed" ∉ greylistTupleSymbols := by simp [greylistTupleSymbols]
  have penpalOther : "counter_penpal" ∉ greylistTupleSymbols := by simp [greylistTupleSymbols]
  unfold Fresh Unspoilt
  constructor
  · intro fresh tuple current
    obtain ⟨here, later⟩ := fresh tuple current
    refine ⟨?_, ?_⟩
    · intro at'
      obtain ⟨field, listed, penpal⟩ := here at'
      refine ⟨?_, ?_, ?_⟩
      · intro member
        exact (field_at_envrcpt member current at').mp (field member)
      · rintro rfl
        exact (listed_at_envrcpt current at').mp (listed rfl)
      · rintro rfl
        exact (penpal_at_envrcpt current at').mp (penpal rfl)
    · intro several
      refine ⟨?_, ?_⟩
      · intro member
        exact (field_several member several).mp (later several)
      · rintro rfl
        exact (penpal_several current several).mp (later several)
  · intro unspoilt tuple current
    obtain ⟨here, later⟩ := unspoilt tuple current
    refine ⟨?_, ?_⟩
    · intro at'
      obtain ⟨field, listed, penpal⟩ := here at'
      refine ⟨?_, ?_, ?_⟩
      · intro member
        exact (field_at_envrcpt member current at').mpr (field member)
      · rintro rfl
        exact (listed_at_envrcpt current at').mpr (listed rfl)
      · rintro rfl
        exact (penpal_at_envrcpt current at').mpr (penpal rfl)
    · intro several
      obtain ⟨field, penpal⟩ := later several
      cases symbol with
      | field _ member => exact (field_several member several).mpr (field member)
      | listed => exact listed_several several
      | penpal => exact (penpal_several current several).mpr (penpal rfl)

end Evaluation

/-! ## Runs -/

/-- The symbols that only the callbacks above write. -/
def ownSymbols : List String :=
  greylistTupleSymbols ++ ["greylist_listed"] ++ counterFields "counter_penpal"

/-- `elsewhere` is everything else that happens: callbacks of the milter, other
actions, updates of the database. -/
inductive SymbolStep where
  | get (name : String)
  | elsewhere (next : SymbolState)

def symbolStep (s : SymbolState) : SymbolStep → SymbolState
  | .get name => (evaluate s name).1
  | .elsewhere next =>
      { next with
        mailspec := fun name => if name ∈ ownSymbols then s.mailspec name else next.mailspec name }

/-- `P` holds at every evaluation of a recipient symbol in the run. -/
def AtEvaluations (P : SymbolState → String → Prop) (s : SymbolState) (steps : List SymbolStep) :
    Prop :=
  ∀ earlier name later, steps = earlier ++ .get name :: later → RecipientSymbol name →
    P (earlier.foldl symbolStep s) name

theorem recipient_symbols_fresh_iff (s : SymbolState) (steps : List SymbolStep) :
    AtEvaluations Fresh s steps ↔ AtEvaluations Unspoilt s steps := by
  constructor
  · intro fresh earlier name later split symbol
    exact (fresh_iff symbol).mp (fresh earlier name later split symbol)
  · intro unspoilt earlier name later split symbol
    exact (fresh_iff symbol).mpr (unspoilt earlier name later split symbol)

/-! Two recipients of one message.  The database has a greylist and a penpal
record of the first one only. -/

def recipientState (envrcpt : Bytes) (recipients : Int) : SymbolState where
  mailspec := vtableSetv (fun _ => none)
    [("stage", .int MilterStage.envrcpt.mask), ("hostaddr_str", .string (cstr "192.0.2.1")),
      ("origin", .string (cstr "example.net")), ("envfrom_addr", .string (cstr "s@example.net")),
      ("envrcpt_addr", .string envrcpt), ("recipients", .int recipients)]
  greylist tuple :=
    if tuple.envrcpt = cstr "a@example.org" then some (Greylist.newRecord 100) else none
  penpal tuple :=
    if tuple.envrcpt = cstr "a@example.org" then some ⟨100, 100, 3700, 7⟩ else none
  relay _ := none
  originCount _ := none
  domain _ _ := none

theorem second_recipient_gets_the_wrong_symbols :
    ["greylist_created", "greylist_listed", "counter_penpal"].Forall fun name =>
      ¬ AtEvaluations Fresh (recipientState (cstr "a@example.org") 1)
        [.get name, .elsewhere (recipientState (cstr "b@example.org") 2), .get name] := by
  refine ⟨fun fresh => ?_, fun fresh => ?_, fun fresh => ?_⟩
  · have right := fresh [.get "greylist_created",
      .elsewhere (recipientState (cstr "b@example.org") 2)] _ [] rfl (.field _ (by decide))
    have stale : IsNull (some (.int 100)) :=
      ((right ⟨cstr "example.net", cstr "s@example.net", cstr "b@example.org"⟩ rfl).1 rfl).1 (by decide)
    exact not_isNull_int 100 stale
  · have right := fresh [.get "greylist_listed",
      .elsewhere (recipientState (cstr "b@example.org") 2)] _ [] rfl .listed
    have null : some (Value.nil .int) = some (.int 0) :=
      ((right ⟨cstr "example.net", cstr "s@example.net", cstr "b@example.org"⟩ rfl).1 rfl).2.1 rfl
    cases null
  · have right := fresh [.get "counter_penpal",
      .elsewhere (recipientState (cstr "b@example.org") 2)] _ [] rfl .penpal
    have stale : IsNull (some (.int 7)) :=
      ((right ⟨cstr "example.net", cstr "s@example.net", cstr "b@example.org"⟩ rfl).1 rfl).2.2 rfl
    exact not_isNull_int 7 stale

end Mopher
