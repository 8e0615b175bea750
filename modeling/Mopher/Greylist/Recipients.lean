import Mopher.Greylist.Connection

/-!
# A message to several recipients

Behind `envrcpt` a `greylist` action goes through all recipients of the message and
stops at the first one that is deferred.  What it has written by then are records
of other tuples and the names of other recipients, so every recipient is judged as
if it were the only one: the message is greylisted exactly when one of them would be.
-/

set_option autoImplicit false

namespace Mopher.Greylist

section Recipients
variable {E : Type} (cf : Config) (eval : E → Table → Option Int)

/-- The expressions of the rule are integers that do not depend on the mailspec. -/
def GreylistRule.Fixed (gl : GreylistRule E) : Prop :=
  ∃ value : E → Int, ∀ exp ∈ [gl.glDeadline, gl.glDelay, gl.glAttempts, gl.glVisa],
    ∀ e ∈ exp, ∀ mailspec, eval e mailspec = some (value e)

/-- The symbols of a message that `greylist` reads. -/
structure Addressed (mailspec : Table) (origin envfrom : Bytes) (names : List Bytes)
    (received : Int) : Prop where
  origin : mailspec "origin" = some (.string origin)
  envfrom : mailspec "envfrom_addr" = some (.string envfrom)
  recipients : mailspec "recipient_list" = some (countedItems names)
  received : mailspec "received" = some (.int received)

/-- `greylist_recipient` for this recipient alone defers. -/
def defers (gl : GreylistRule E) (store : Store) (mailspec : Table) (origin envfrom : Bytes)
    (received : Int) (envrcpt : Bytes) : Bool :=
  (greylistRecipient cf eval gl store mailspec ⟨origin, envfrom, envrcpt⟩ received).result = 1

/-! ## One recipient -/

/-- The answer of `greylist_tuple_counted` on the list of counted recipients. -/
def counted (mailspec : Table) (envrcpt : Bytes) : Int :=
  (greylistTupleCounted mailspec connectionCounted envrcpt).1

theorem countedSearch_append {needle other : Bytes} (distinct : needle ≠ other)
    (items : List (Option Value)) :
    countedSearch needle (items ++ [some (.string other)]) = countedSearch needle items := by
  induction items with
  | nil => simp [countedSearch, distinct]
  | cons item rest ih =>
      cases item with
      | none => rfl
      | some v =>
          cases v with
          | nil t => rfl
          | list inner => rfl
          | scalar data =>
              cases data with
              | string text => simp only [List.cons_append, countedSearch, ih]
              | table records => rfl
              | addr address => rfl
              | int number => rfl
              | float pattern => rfl
              | pointer address => rfl
              | blob content => rfl

/-- A recipient that was put on the list has no influence on another one. -/
theorem counted_after {needle other : Bytes} (distinct : needle ≠ other) (mailspec : Table) :
    counted (greylistTupleCounted mailspec connectionCounted other).2 needle =
      counted mailspec needle := by
  unfold counted
  cases bound : mailspec connectionCounted with
  | none => simp [greylistTupleCounted, bound, countedSearch, distinct]
  | some v =>
      cases v with
      | nil t => simp [greylistTupleCounted, bound]
      | scalar data => simp [greylistTupleCounted, bound]
      | list items =>
          cases search : countedSearch other items with
          | some answer => simp [greylistTupleCounted, bound, search]
          | none =>
              simp only [greylistTupleCounted, bound, search, vtableSet_same,
                countedSearch_append distinct]
              cases countedSearch needle items <;> rfl

theorem counted_congr {mailspec other : Table}
    (same : other connectionCounted = mailspec connectionCounted) (envrcpt : Bytes) :
    counted other envrcpt = counted mailspec envrcpt := by
  unfold counted greylistTupleCounted
  rw [same]
  cases mailspec connectionCounted with
  | none => rfl
  | some v =>
      cases v with
      | nil t => rfl
      | scalar data => rfl
      | list items =>
          simp only []
          split
          · rfl
          · rfl

theorem GreylistRule.Fixed.evaluates {gl : GreylistRule E} (fixed : gl.Fixed eval)
    (mailspec : Table) : gl.Evaluates eval mailspec := by
  obtain ⟨value, same⟩ := fixed
  intro exp member e set
  rw [same exp member e set mailspec]
  rfl

theorem GreylistRule.Fixed.properties {gl : GreylistRule E} (fixed : gl.Fixed eval)
    (mailspec other : Table) (record : Record) :
    greylistProperties eval gl other record = greylistProperties eval gl mailspec record := by
  obtain ⟨value, same⟩ := fixed
  have property (exp : Option E)
      (member : exp ∈ [gl.glDeadline, gl.glDelay, gl.glAttempts, gl.glVisa]) (number : Int) :
      greylistProperty eval exp other number = greylistProperty eval exp mailspec number := by
    cases exp with
    | none => rfl
    | some e => rw [greylistProperty, greylistProperty, same _ member e rfl, same _ member e rfl]
  unfold greylistProperties
  rw [property gl.glDeadline (by simp), property gl.glDelay (by simp),
    property gl.glAttempts (by simp), property gl.glVisa (by simp)]

/-- The verdict on a live record depends on the mailspec by the counted list only. -/
theorem greylistUpdate_result (mailspec : Table) (envrcpt : Bytes) (received : Int) (record : Record) :
    (greylistUpdate mailspec envrcpt received record).result =
      if toInt (received - record.created) > record.delay ∧
          (if counted mailspec envrcpt = 0 then record.connections + 1 else record.connections) >
            record.attempts
        then 0 else 1 := by
  unfold greylistUpdate counted
  dsimp only
  generalize (if (greylistTupleCounted mailspec connectionCounted envrcpt).1 = 0
    then record.connections + 1 else record.connections) = connections
  split
  · rfl
  · rfl

/-- A recipient is judged alike in two mailspecs that count it alike. -/
theorem attempt_congr {gl : GreylistRule E} (fixed : gl.Fixed eval) {mailspec other : Table}
    {envrcpt : Bytes} (same : counted other envrcpt = counted mailspec envrcpt) (received : Int)
    (record : Option Record) :
    (greylistAttempt cf eval gl other envrcpt received record).result =
      (greylistAttempt cf eval gl mailspec envrcpt received record).result := by
  have added : (greylistAdd cf eval gl other received).result =
      (greylistAdd cf eval gl mailspec received).result := by
    unfold greylistAdd
    rw [fixed.properties eval mailspec other]
    cases greylistProperties eval gl mailspec (newRecord received) <;> rfl
  cases record with
  | none =>
      unfold greylistAttempt
      simp only []
      split
      · rfl
      · exact added
  | some record =>
      unfold greylistAttempt
      simp only []
      split
      · exact added
      · rw [fixed.properties eval mailspec other]
        cases greylistProperties eval gl mailspec record with
        | none => rfl
        | some updated => rw [greylistUpdate_result, greylistUpdate_result, same]

/-- With expressions that evaluate a recipient passes or is deferred. -/
theorem attempt_result {gl : GreylistRule E} {mailspec : Table}
    (evaluates : gl.Evaluates eval mailspec) (envrcpt : Bytes) (received : Int)
    (record : Option Record) :
    (greylistAttempt cf eval gl mailspec envrcpt received record).result = 0 ∨
      (greylistAttempt cf eval gl mailspec envrcpt received record).result = 1 := by
  rcases greylistAttempt_cases cf eval gl mailspec envrcpt received record with
    ⟨-, -, shape⟩ | ⟨-, -, shape⟩ | ⟨r, -, -, fails, -⟩ | ⟨r, updated, -, -, -, shape⟩
  · exact .inl (by rw [shape])
  · rcases greylistAdd_cases cf eval gl mailspec received with ⟨fails, -⟩ | ⟨record, added, -⟩
    · obtain ⟨result, run⟩ := greylistProperties_evaluates eval (newRecord received) evaluates
      rw [fails] at run
      cases run
    · exact .inr (by rw [shape, added])
  · obtain ⟨result, run⟩ := greylistProperties_evaluates eval r evaluates
    rw [fails] at run
    cases run
  · rw [shape, greylistUpdate_result]
    by_cases waited : toInt (received - updated.created) > updated.delay ∧
        (if counted mailspec envrcpt = 0 then updated.connections + 1 else updated.connections) >
          updated.attempts
    · exact .inl (if_pos waited)
    · exact .inr (if_neg waited)

/-- What a call leaves on the counted list. -/
theorem attempt_counted (gl : GreylistRule E) (mailspec : Table) {needle envrcpt : Bytes}
    (distinct : needle ≠ envrcpt) (received : Int) (record : Option Record) :
    counted (greylistAttempt cf eval gl mailspec envrcpt received record).mailspec needle =
      counted mailspec needle := by
  rcases greylistAttempt_cases cf eval gl mailspec envrcpt received record with
    ⟨-, -, shape⟩ | ⟨-, -, shape⟩ | ⟨r, -, -, -, shape⟩ | ⟨r, updated, -, -, -, shape⟩
  · rw [shape]
  · rw [shape]
    rcases greylistAdd_cases cf eval gl mailspec received with ⟨-, added⟩ | ⟨record, added, -⟩
    · rw [added]
    · rw [added]
  · rw [shape]
  · rw [shape, counted_congr (greylistUpdate_mailspec mailspec envrcpt received updated) needle]
    exact counted_after distinct mailspec

/-! ## All recipients -/

/-- Nothing that matters for these recipients has changed since the action began. -/
structure Untouched (store store' : Store) (mailspec mailspec' : Table) (origin envfrom : Bytes)
    (names : List Bytes) : Prop where
  records : ∀ envrcpt ∈ names, store' ⟨origin, envfrom, envrcpt⟩ = store ⟨origin, envfrom, envrcpt⟩
  counts : ∀ envrcpt ∈ names, counted mailspec' envrcpt = counted mailspec envrcpt

/-- One round of the loop leaves the other recipients alone. -/
theorem Untouched.round {store store' : Store} {mailspec mailspec' : Table} {origin envfrom : Bytes}
    {envrcpt : Bytes} {rest : List Bytes} (fresh : envrcpt ∉ rest)
    (untouched : Untouched store store' mailspec mailspec' origin envfrom (envrcpt :: rest))
    (gl : GreylistRule E) (received : Int) :
    Untouched store (greylistRecipient cf eval gl store' mailspec' ⟨origin, envfrom, envrcpt⟩
        received).store mailspec
      (greylistRecipient cf eval gl store' mailspec' ⟨origin, envfrom, envrcpt⟩ received).mailspec
      origin envfrom rest where
  records other member := by
    have distinct : other ≠ envrcpt := fun same => fresh (same ▸ member)
    have tuples : (⟨origin, envfrom, other⟩ : Tuple) ≠ ⟨origin, envfrom, envrcpt⟩ := by
      intro same
      cases same
      exact distinct rfl
    rw [← untouched.records other (List.mem_cons_of_mem _ member)]
    exact commit_other _ _ _ _ tuples
  counts other member := by
    have distinct : other ≠ envrcpt := fun same => fresh (same ▸ member)
    rw [← untouched.counts other (List.mem_cons_of_mem _ member)]
    exact attempt_counted cf eval gl mailspec' distinct received _

/-- A recipient in the loop is judged as it would be alone. -/
theorem Untouched.verdict {store store' : Store} {mailspec mailspec' : Table} {origin envfrom : Bytes}
    {envrcpt : Bytes} {names : List Bytes} (member : envrcpt ∈ names)
    (untouched : Untouched store store' mailspec mailspec' origin envfrom names)
    {gl : GreylistRule E} (fixed : gl.Fixed eval) (received : Int) :
    (greylistRecipient cf eval gl store' mailspec' ⟨origin, envfrom, envrcpt⟩ received).result =
      (defers cf eval gl store mailspec origin envfrom received envrcpt).toNat := by
  have alone := attempt_congr cf eval fixed (untouched.counts envrcpt member) received
    (store ⟨origin, envfrom, envrcpt⟩)
  unfold defers greylistRecipient
  simp only [untouched.records envrcpt member, alone]
  rcases attempt_result cf eval (fixed.evaluates eval mailspec) envrcpt received
    (store ⟨origin, envfrom, envrcpt⟩) with passes | deferred
  · simp [passes]
  · simp [deferred]

/-- The loop ends with a deferral exactly when some recipient would be deferred. -/
theorem greylistLoop_defer {gl : GreylistRule E} (fixed : gl.Fixed eval) (store : Store)
    (mailspec : Table) (origin envfrom : Bytes) (received : Int) (names : List Bytes) :
    ∀ (store' : Store) (mailspec' : Table) (maxDelay : Int), names.Nodup →
      Untouched store store' mailspec mailspec' origin envfrom names →
      (greylistLoop cf eval gl origin envfrom received names store' mailspec' maxDelay).defer =
        (names.any (defers cf eval gl store mailspec origin envfrom received)).toNat := by
  induction names with
  | nil => intro store' mailspec' maxDelay _ _; rfl
  | cons envrcpt rest ih =>
      intro store' mailspec' maxDelay distinct untouched
      obtain ⟨fresh, distinct⟩ := List.nodup_cons.mp distinct
      have verdict := untouched.verdict cf eval List.mem_cons_self fixed received
      have later := untouched.round cf eval fresh gl received
      simp only [greylistLoop, List.any_cons]
      cases deferred : defers cf eval gl store mailspec origin envfrom received envrcpt with
      | true =>
          rw [deferred] at verdict
          rw [if_pos (by simp [verdict])]
          simpa using verdict
      | false =>
          rw [deferred] at verdict
          rw [if_neg (by simp [verdict]), Bool.false_or]
          exact ih _ _ _ distinct later

theorem recipientNames_texts (names : List Bytes) :
    recipientNames (names.map fun text => some (.string text)) = some names := by
  induction names with
  | nil => rfl
  | cons text rest ih => simp [recipientNames, ih]

theorem Addressed.greylist {mailspec : Table} {origin envfrom : Bytes} {names : List Bytes}
    {received : Int} (addressed : Addressed mailspec origin envfrom names received)
    {stage : MilterStage} (later : stage ≠ .envrcpt) (some' : names ≠ []) (gl : GreylistRule E)
    (store : Store) :
    greylist cf eval stage gl store mailspec =
      some (greylistVerdict (greylistLoop cf eval gl origin envfrom received names store mailspec 0)) := by
  have found (name : String) {v : Value} (bound : mailspec name = some v) (data : v.isNull = false) :
      vtableGet mailspec name = some v := by
    simp [vtableGet, bound, data]
  have originFound := found "origin" addressed.origin rfl
  have envfromFound := found "envfrom_addr" addressed.envfrom rfl
  have listFound := found "recipient_list" addressed.recipients rfl
  have receivedFound := found "received" addressed.received rfl
  have enough : ¬ (["origin", "envfrom_addr", "envrcpt_addr", "recipient_list", "received"].filter
      fun name => (vtableGet mailspec name).isSome).length < 4 := by
    simp only [List.filter_cons, originFound, envfromFound, listFound, receivedFound,
      Option.isSome_some, if_true, List.filter_nil]
    split <;> simp
  obtain ⟨envrcpt, rest, rfl⟩ := List.exists_cons_of_ne_nil some'
  unfold Mopher.Greylist.greylist
  simp only [if_neg enough, originFound, envfromFound, receivedFound, listFound, if_neg later,
    countedItems, recipientNames_texts]

/-- Greylisting is the disjunction over the recipients, in whatever order they are. -/
theorem greylist_is_disjunction {gl : GreylistRule E} (fixed : gl.Fixed eval) {stage : MilterStage}
    (later : stage ≠ .envrcpt) (store : Store) {mailspec : Table} {origin envfrom : Bytes}
    {names : List Bytes} (some' : names ≠ []) (distinct : names.Nodup) {received : Int}
    (addressed : Addressed mailspec origin envfrom names received) :
    (greylist cf eval stage gl store mailspec).map ActionResult.action =
        some (if ∃ envrcpt ∈ names, (greylistRecipient cf eval gl store mailspec
            ⟨origin, envfrom, envrcpt⟩ received).result = 1
          then .greylist else .none) ∧
      ∀ (names' : List Bytes) (mailspec' : Table), names'.Perm names →
        (∀ name, name ≠ "recipient_list" → mailspec' name = mailspec name) →
        mailspec' "recipient_list" = some (countedItems names') →
        (greylist cf eval stage gl store mailspec').map ActionResult.action =
          (greylist cf eval stage gl store mailspec).map ActionResult.action := by
  have verdict {names : List Bytes} {mailspec : Table} (some' : names ≠ []) (distinct : names.Nodup)
      (addressed : Addressed mailspec origin envfrom names received) :
      (greylist cf eval stage gl store mailspec).map ActionResult.action =
        some (if names.any (defers cf eval gl store mailspec origin envfrom received)
          then .greylist else .none) := by
    have defer := greylistLoop_defer cf eval fixed store mailspec origin envfrom received names store
      mailspec 0 distinct ⟨fun _ _ => rfl, fun _ _ => rfl⟩
    rw [addressed.greylist cf eval later some', Option.map_some]
    unfold greylistVerdict
    cases deferred : names.any (defers cf eval gl store mailspec origin envfrom received) with
    | true =>
        rw [deferred] at defer
        simp [defer]
    | false =>
        rw [deferred] at defer
        simp only [defer]
        by_cases fast : (greylistLoop cf eval gl origin envfrom received names store mailspec
            0).maxDelay = 0
        · simp [fast]
        · simp [fast]
  constructor
  · rw [verdict some' distinct addressed]
    simp only [List.any_eq_true, defers, decide_eq_true_eq]
  · intro names' mailspec' permuted elsewhere listed
    have addressed' : Addressed mailspec' origin envfrom names' received := by
      refine ⟨?_, ?_, listed, ?_⟩
      · rw [elsewhere _ (by decide), addressed.origin]
      · rw [elsewhere _ (by decide), addressed.envfrom]
      · rw [elsewhere _ (by decide), addressed.received]
    have alike (envrcpt : Bytes) : defers cf eval gl store mailspec' origin envfrom received envrcpt =
        defers cf eval gl store mailspec origin envfrom received envrcpt := by
      have counts := counted_congr (elsewhere connectionCounted (by decide)) envrcpt
      unfold defers greylistRecipient
      simp only [attempt_congr cf eval fixed counts]
    have some'' : names' ≠ [] := fun none' => some' (by simpa [none'] using permuted.symm)
    rw [verdict some'' (permuted.nodup_iff.mpr distinct) addressed', verdict some' distinct addressed]
    rw [funext alike, permuted.any_eq]

end Recipients

/-- Two recipients; the record of the second one has waited long enough. -/
def twoRecipients : Table :=
  vtableSetv (fun _ => none)
    [("origin", .string (cstr "192.0.2.1")), ("envfrom_addr", .string (cstr "a@example.org")),
      ("recipient_list", countedItems [cstr "b@example.org", cstr "c@example.org"]),
      ("received", .int 2000)]

theorem one_new_recipient_greylists :
    (greylist sampleConfig literalEval .data delayRule
        (Function.update (fun _ => none)
          ⟨cstr "192.0.2.1", cstr "a@example.org", cstr "b@example.org"⟩ (some liveRecord))
        twoRecipients).map ActionResult.action = some .greylist := by
  have fixed : delayRule.Fixed literalEval := ⟨id, fun _ _ _ _ _ => rfl⟩
  have addressed : Addressed twoRecipients (cstr "192.0.2.1") (cstr "a@example.org")
      [cstr "b@example.org", cstr "c@example.org"] 2000 := ⟨rfl, rfl, rfl, rfl⟩
  rw [(greylist_is_disjunction sampleConfig literalEval fixed (by decide) _ (by simp) (by decide)
    addressed).1]
  rw [if_pos ⟨cstr "c@example.org", by simp, by decide +kernel⟩]

end Mopher.Greylist
