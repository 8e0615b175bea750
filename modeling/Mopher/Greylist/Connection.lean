import Mopher.Stage
import Mopher.Greylist.Janitor

/-!
# Counting a connection

A connection has one mailspec and executes any number of `greylist` actions on
it.  Between two of them the callbacks and other actions change the mailspec,
and other connections and the janitor change the store; only the two lists that
`greylist_tuple_counted` keeps are private to it.

The counter of a tuple should rise once for a connection.  The list that is to
ensure this holds recipients, not tuples, and a call that creates a record does
not put its recipient on it, so this is true of a run exactly when every call
meets `CountsRight`.
-/

set_option autoImplicit false

namespace Mopher.Greylist

/-- A call of `greylist_recipient`, with what it reads. -/
structure Visit (E : Type) where
  gl : GreylistRule E
  tuple : Tuple
  received : Int
  mailspec : Table
  record : Option Record

/-- Locals of `greylist` after the calls it makes.  `visits` is not in the
source: it is the list of these calls. -/
structure Pass (E : Type) where
  defer : Int
  maxDelay : Int
  store : Store
  mailspec : Table
  visits : List (Visit E)

structure ActionResult (E : Type) where
  action : AclActionType
  store : Store
  mailspec : Table
  visits : List (Visit E)

/-- The strings that the loop over `recipient_list` reads, or `none` if it meets
an item that is not one. -/
def recipientNames : List (Option Value) → Option (List Bytes)
  | [] => some []
  | none :: _ => some []
  | some (.scalar (.string text)) :: rest => (recipientNames rest).map (text :: ·)
  | some _ :: _ => none

section Action
variable {E : Type} (cf : Config) (eval : E → Table → Option Int)

def Visit.attempt (visit : Visit E) : Attempt :=
  greylistAttempt cf eval visit.gl visit.mailspec visit.tuple.envrcpt visit.received visit.record

/-- The loop of `greylist` over all recipients.  It ends at the first one that
is not passed. -/
def greylistLoop (gl : GreylistRule E) (origin envfrom : Bytes) (received : Int) :
    List Bytes → Store → Table → Int → Pass E
  | [], store, mailspec, maxDelay => ⟨0, maxDelay, store, mailspec, []⟩
  | envrcpt :: rest, store, mailspec, maxDelay =>
      let tuple : Tuple := ⟨origin, envfrom, envrcpt⟩
      let visit : Visit E := ⟨gl, tuple, received, mailspec, store tuple⟩
      let outcome := greylistRecipient cf eval gl store mailspec tuple received
      if outcome.result ≠ 0 then
        ⟨outcome.result, maxDelay, outcome.store, outcome.mailspec, [visit]⟩
      else
        let pass := greylistLoop gl origin envfrom received rest outcome.store outcome.mailspec
          (if outcome.delayed > maxDelay then outcome.delayed else maxDelay)
        { pass with visits := visit :: pass.visits }

/-- The end of `greylist`. -/
def greylistVerdict (pass : Pass E) : ActionResult E :=
  if pass.defer = -1 then ⟨.error, pass.store, pass.mailspec, pass.visits⟩
  else if pass.defer ≠ 0 then ⟨.greylist, pass.store, pass.mailspec, pass.visits⟩
  else if pass.maxDelay = 0 then ⟨.none, pass.store, pass.mailspec, pass.visits⟩
  else
    ⟨.none, pass.store, vtableSet pass.mailspec "greylist_delayed" (.int pass.maxDelay),
      pass.visits⟩

/-- `greylist`.  Four of the five symbols have to be set.  There is no result if
the fifth is one that is used, or if a symbol has another type than its
callback gives it. -/
def greylist (stage : MilterStage) (gl : GreylistRule E) (store : Store) (mailspec : Table) :
    Option (ActionResult E) :=
  let names := ["origin", "envfrom_addr", "envrcpt_addr", "recipient_list", "received"]
  if (names.filter fun name => (vtableGet mailspec name).isSome).length < 4 then
    some ⟨.error, store, mailspec, []⟩
  else
    match vtableGet mailspec "origin", vtableGet mailspec "envfrom_addr",
        vtableGet mailspec "received" with
    | some (.scalar (.string origin)), some (.scalar (.string envfrom)),
        some (.scalar (.int received)) =>
        if stage = .envrcpt then
          match vtableGet mailspec "envrcpt_addr" with
          | some (.scalar (.string envrcpt)) =>
              let tuple : Tuple := ⟨origin, envfrom, envrcpt⟩
              let outcome := greylistRecipient cf eval gl store mailspec tuple received
              some (greylistVerdict ⟨outcome.result, outcome.delayed, outcome.store,
                outcome.mailspec, [⟨gl, tuple, received, mailspec, store tuple⟩]⟩)
          | _ => none
        else
          match vtableGet mailspec "recipient_list" with
          | some (.list items) =>
              match recipientNames items with
              | some (envrcpt :: rest) =>
                  some (greylistVerdict (greylistLoop cf eval gl origin envfrom received
                    (envrcpt :: rest) store mailspec 0))
              | _ => none
          | _ => none
    | _, _, _ => none

end Action

/-! ## A connection -/

/-- `elsewhere` is whatever other connections and the janitor do to the store. -/
inductive ConnectionEvent (E : Type) where
  | action (stage : MilterStage) (gl : GreylistRule E) (symbols : Table)
  | elsewhere (store : Store)

/-- The mailspec of an action: everything but the two lists is arbitrary. -/
def atAction (carried symbols : Table) : Table :=
  fun name => if name = connectionCounted ∨ name = passedCounted then carried name else symbols name

section Connection
variable {E : Type} (cf : Config) (eval : E → Table → Option Int)

/-- All calls of `greylist_recipient` that the actions of a connection make. -/
def connectionVisits (store : Store) (carried : Table) : List (ConnectionEvent E) → List (Visit E)
  | [] => []
  | .elsewhere other :: rest => connectionVisits other carried rest
  | .action stage gl symbols :: rest =>
      match greylist cf eval stage gl store (atAction carried symbols) with
      | none => []
      | some result => result.visits ++ connectionVisits result.store result.mailspec rest

/-- The record is live and the rule's properties evaluate. -/
def Visit.updates (visit : Visit E) : Bool :=
  match visit.record with
  | none => false
  | some record =>
      !(decide (record.expire < visit.received)) &&
        (greylistProperties eval visit.gl visit.mailspec record).isSome

/-- There is no live record, the call does not ignore the tuple, and the rule's
properties evaluate. -/
def Visit.creates (visit : Visit E) : Bool :=
  (match visit.record with
    | none => !visit.gl.isEmpty
    | some record => decide (record.expire < visit.received)) &&
  (greylistProperties eval visit.gl visit.mailspec (newRecord visit.received)).isSome

def Visit.greylists (visit : Visit E) : Bool := visit.updates eval || visit.creates eval

/-- By how much the call raises the stored counter; a new record counts from zero. -/
def Visit.rise (visit : Visit E) : Int :=
  match (visit.attempt cf eval).write, visit.record with
  | none, _ => 0
  | some written, none => written.connections
  | some written, some record =>
      if record.expire < visit.received then written.connections
      else written.connections - record.connections

def totalRise (tuple : Tuple) (visits : List (Visit E)) : Int :=
  ((visits.filter fun visit => visit.tuple = tuple).map (Visit.rise cf eval)).sum

def greylistedOn (tuple : Tuple) (visits : List (Visit E)) : Bool :=
  visits.any fun visit => decide (visit.tuple = tuple) && visit.greylists eval

def recipientUpdated (envrcpt : Bytes) (visits : List (Visit E)) : Bool :=
  visits.any fun visit => decide (visit.tuple.envrcpt = envrcpt) && visit.updates eval

/-- After every call, each tuple has risen by one if it was greylisted and by
zero if not. -/
def CountedOnce (visits : List (Visit E)) : Prop :=
  ∀ n tuple, totalRise cf eval tuple (visits.take n) =
    (greylistedOn eval tuple (visits.take n)).toNat

/-- A call may create the record of a tuple that the connection has not
greylisted yet.  It may update a live record if the connection has updated a
record of this recipient before just in case it has greylisted this tuple. -/
def CountsRight (earlier : List (Visit E)) (visit : Visit E) : Prop :=
  (visit.creates eval = true → greylistedOn eval visit.tuple earlier = false) ∧
  (visit.updates eval = true →
    recipientUpdated eval visit.tuple.envrcpt earlier = greylistedOn eval visit.tuple earlier)

/-! ## The counted list -/

def countedItems (texts : List Bytes) : Value :=
  .list (texts.map fun text => some (.string text))

/-- The list holds the recipients whose records were updated so far. -/
def ListKept (earlier : List (Visit E)) (mailspec : Table) : Prop :=
  (mailspec connectionCounted = none ∧ ∀ envrcpt, recipientUpdated eval envrcpt earlier = false) ∨
  ∃ texts, mailspec connectionCounted = some (countedItems texts) ∧
    ∀ envrcpt, recipientUpdated eval envrcpt earlier = decide (envrcpt ∈ texts)

theorem countedSearch_texts (needle : Bytes) (texts : List Bytes) :
    countedSearch needle (texts.map fun text => some (.string text)) =
      if needle ∈ texts then some 1 else none := by
  induction texts with
  | nil => rfl
  | cons text rest ih =>
      simp only [List.map_cons, countedSearch, ih, List.mem_cons]
      by_cases same : needle = text
      · simp [same]
      · simp [same]

theorem recipientUpdated_snoc (envrcpt : Bytes) (earlier : List (Visit E)) (visit : Visit E) :
    recipientUpdated eval envrcpt (earlier ++ [visit]) =
      (recipientUpdated eval envrcpt earlier ||
        decide (visit.tuple.envrcpt = envrcpt) && visit.updates eval) := by
  simp [recipientUpdated]

theorem greylistedOn_snoc (tuple : Tuple) (earlier : List (Visit E)) (visit : Visit E) :
    greylistedOn eval tuple (earlier ++ [visit]) =
      (greylistedOn eval tuple earlier ||
        decide (visit.tuple = tuple) && visit.greylists eval) := by
  simp [greylistedOn]

theorem totalRise_snoc (tuple : Tuple) (earlier : List (Visit E)) (visit : Visit E) :
    totalRise cf eval tuple (earlier ++ [visit]) =
      totalRise cf eval tuple earlier + if visit.tuple = tuple then visit.rise cf eval else 0 := by
  by_cases same : visit.tuple = tuple
  · simp [totalRise, same]
  · simp [totalRise, same]

theorem greylistTupleCounted_other (mailspec : Table) (haystack name : String) (needle : Bytes)
    (distinct : name ≠ haystack) :
    (greylistTupleCounted mailspec haystack needle).2 name = mailspec name := by
  unfold greylistTupleCounted
  split
  · exact vtableSet_other _ _ _ _ distinct
  · split
    · rfl
    · exact vtableSet_other _ _ _ _ distinct
  · rfl

theorem greylistUpdate_mailspec (mailspec : Table) (envrcpt : Bytes) (received : Int)
    (record : Record) :
    (greylistUpdate mailspec envrcpt received record).mailspec connectionCounted =
      (greylistTupleCounted mailspec connectionCounted envrcpt).2 connectionCounted := by
  have distinct : connectionCounted ≠ passedCounted := by decide
  unfold greylistUpdate
  dsimp only
  generalize (if (greylistTupleCounted mailspec connectionCounted envrcpt).1 = 0
    then record.connections + 1 else record.connections) = connections
  split
  · exact greylistTupleCounted_other _ _ _ _ distinct
  · rfl

/-- What `greylist_tuple_counted` answers, and the list it leaves. -/
theorem tupleCounted_of_listKept {earlier : List (Visit E)} {mailspec : Table} (needle : Bytes)
    (kept : ListKept eval earlier mailspec) :
    (greylistTupleCounted mailspec connectionCounted needle).1 =
        (recipientUpdated eval needle earlier).toNat ∧
      ∃ texts, (greylistTupleCounted mailspec connectionCounted needle).2 connectionCounted =
          some (countedItems texts) ∧
        ∀ envrcpt, decide (envrcpt ∈ texts) =
          (recipientUpdated eval envrcpt earlier || decide (needle = envrcpt)) := by
  rcases kept with ⟨unbound, none⟩ | ⟨texts, bound, members⟩
  · refine ⟨by simp [greylistTupleCounted, unbound, none], [needle], ?_, ?_⟩
    · simp [greylistTupleCounted, unbound, countedItems]
    · intro envrcpt
      simp [none, eq_comm]
  · rw [countedItems] at bound
    by_cases member : needle ∈ texts
    · refine ⟨?_, texts, ?_, ?_⟩
      · simp [greylistTupleCounted, bound, countedSearch_texts, member, members]
      · simp [greylistTupleCounted, bound, countedSearch_texts, member, countedItems]
      · intro envrcpt
        rw [members]
        by_cases same : needle = envrcpt
        · simp [← same, member]
        · simp [same]
    · refine ⟨?_, texts ++ [needle], ?_, ?_⟩
      · simp [greylistTupleCounted, bound, countedSearch_texts, member, members]
      · simp [greylistTupleCounted, bound, countedSearch_texts, member, countedItems]
      · intro envrcpt
        rw [members]
        simp [eq_comm]

/-! ## One call -/

/-- A call updates a live record, creates one, or writes nothing. -/
theorem visit_cases (visit : Visit E) :
    (visit.updates eval = true ∧ visit.creates eval = false ∧
      ∃ record updated, visit.record = some record ∧ ¬ record.expire < visit.received ∧
        greylistProperties eval visit.gl visit.mailspec record = some updated ∧
        visit.attempt cf eval =
          greylistUpdate visit.mailspec visit.tuple.envrcpt visit.received updated) ∨
    (visit.updates eval = false ∧ visit.creates eval = true ∧
      ¬ Unexpired visit.received visit.record ∧
      ∃ record, visit.attempt cf eval = ⟨1, 0, some record, visit.mailspec⟩ ∧
        record.connections = 1) ∨
    (visit.updates eval = false ∧ visit.creates eval = false ∧
      (visit.attempt cf eval).write = none ∧
      (visit.attempt cf eval).mailspec = visit.mailspec) := by
  rcases greylistAttempt_cases cf eval visit.gl visit.mailspec visit.tuple.envrcpt visit.received
      visit.record with
    ⟨absent, empty, shape⟩ | ⟨notLive, nonempty, shape⟩ | ⟨record, found, live, fails, shape⟩ |
    ⟨record, updated, found, live, run, shape⟩
  · refine .inr (.inr ⟨?_, ?_, ?_, ?_⟩)
    · simp [Visit.updates, absent]
    · simp [Visit.creates, absent, empty]
    · rw [Visit.attempt, shape]
    · rw [Visit.attempt, shape]
  · have noUpdate : visit.updates eval = false := by
      unfold Visit.updates
      cases found : visit.record with
      | none => rfl
      | some record =>
          have late : record.expire < visit.received := by
            by_contra early
            exact notLive ⟨record, found, by omega⟩
          simp [late]
    have creating : (match visit.record with
        | none => !visit.gl.isEmpty
        | some record => decide (record.expire < visit.received)) = true := by
      cases found : visit.record with
      | none => simp [nonempty found]
      | some record =>
          simp only [decide_eq_true_eq]
          by_contra early
          exact notLive ⟨record, found, by omega⟩
    rcases greylistAdd_cases cf eval visit.gl visit.mailspec visit.received with
      ⟨fails, added⟩ | ⟨record, added, -, connections, -⟩
    · refine .inr (.inr ⟨noUpdate, ?_, ?_, ?_⟩)
      · simp [Visit.creates, fails]
      · rw [Visit.attempt, shape, added]
      · rw [Visit.attempt, shape, added]
    · refine .inr (.inl ⟨noUpdate, ?_, notLive, record, by rw [Visit.attempt, shape, added],
        connections⟩)
      cases run : greylistProperties eval visit.gl visit.mailspec (newRecord visit.received) with
      | none => simp [greylistAdd, run] at added
      | some properties => rw [Visit.creates, creating, run]; rfl
  · have early : ¬ record.expire < visit.received := by omega
    refine .inr (.inr ⟨?_, ?_, ?_, ?_⟩)
    · simp [Visit.updates, found, fails]
    · simp [Visit.creates, found, early]
    · rw [Visit.attempt, shape]
    · rw [Visit.attempt, shape]
  · have early : ¬ record.expire < visit.received := by omega
    refine .inl ⟨?_, ?_, record, updated, found, early, run, shape⟩
    · simp [Visit.updates, found, early, run]
    · simp [Visit.creates, found, early]

theorem listKept_snoc {earlier : List (Visit E)} (visit : Visit E)
    (kept : ListKept eval earlier visit.mailspec) :
    ListKept eval (earlier ++ [visit]) (visit.attempt cf eval).mailspec := by
  have unchanged (noUpdate : visit.updates eval = false) :
      ListKept eval (earlier ++ [visit]) visit.mailspec := by
    simpa only [ListKept, recipientUpdated_snoc, noUpdate, Bool.and_false, Bool.or_false] using kept
  rcases visit_cases cf eval visit with
    ⟨updates, -, record, updated, -, -, -, shape⟩ | ⟨noUpdate, -, -, record, shape, -⟩ |
    ⟨noUpdate, -, -, mailspec⟩
  · obtain ⟨-, texts, bound, members⟩ := tupleCounted_of_listKept eval visit.tuple.envrcpt kept
    refine .inr ⟨texts, ?_, ?_⟩
    · rw [shape, greylistUpdate_mailspec, bound]
    · intro envrcpt
      rw [recipientUpdated_snoc, members, updates, Bool.and_true]
  · rw [shape]
    exact unchanged noUpdate
  · rw [mailspec]
    exact unchanged noUpdate

theorem rise_of_listKept {earlier : List (Visit E)} {visit : Visit E}
    (kept : ListKept eval earlier visit.mailspec) :
    visit.rise cf eval = (visit.creates eval).toNat +
      (visit.updates eval && !recipientUpdated eval visit.tuple.envrcpt earlier).toNat := by
  rcases visit_cases cf eval visit with
    ⟨updates, noCreate, record, updated, found, early, run, shape⟩ |
    ⟨noUpdate, creates, notLive, record, shape, connections⟩ | ⟨noUpdate, noCreate, write, -⟩
  · obtain ⟨answer, -⟩ := tupleCounted_of_listKept eval visit.tuple.envrcpt kept
    obtain ⟨written, write, -, -, counter, -⟩ :=
      greylistUpdate_write visit.mailspec visit.tuple.envrcpt visit.received updated
    obtain ⟨-, same, -⟩ := greylistProperties_keeps eval run
    rw [answer, same] at counter
    simp only [Visit.rise, shape, write, found, early, counter, updates, noCreate]
    cases recipientUpdated eval visit.tuple.envrcpt earlier <;> simp
  · cases found : visit.record with
    | none => simp [Visit.rise, shape, found, connections, creates, noUpdate]
    | some old =>
        have late : old.expire < visit.received := by
          by_contra early
          exact notLive ⟨old, found, by omega⟩
        simp [Visit.rise, shape, found, late, connections, creates, noUpdate]
  · simp [Visit.rise, write, noUpdate, noCreate]

/-- `CountsRight` says that the call raises the counter by as much as it should. -/
theorem countsRight_iff {earlier : List (Visit E)} {visit : Visit E}
    (kept : ListKept eval earlier visit.mailspec) :
    CountsRight eval earlier visit ↔
      (greylistedOn eval visit.tuple earlier).toNat + visit.rise cf eval =
        (greylistedOn eval visit.tuple (earlier ++ [visit])).toNat := by
  rw [rise_of_listKept cf eval kept, greylistedOn_snoc]
  unfold CountsRight Visit.greylists
  have exclusive : visit.updates eval = false ∨ visit.creates eval = false := by
    rcases visit_cases cf eval visit with ⟨-, no, -⟩ | ⟨no, -⟩ | ⟨no, -⟩
    · exact .inr no
    · exact .inl no
    · exact .inl no
  cases updates : visit.updates eval <;> cases creates : visit.creates eval <;>
    cases greylistedOn eval visit.tuple earlier <;>
    cases recipientUpdated eval visit.tuple.envrcpt earlier <;> simp_all

/-! ## A whole connection -/

/-- Every call finds the list as the calls before it left it. -/
def AllKept (earlier : List (Visit E)) : List (Visit E) → Prop
  | [] => True
  | visit :: rest => ListKept eval earlier visit.mailspec ∧ AllKept (earlier ++ [visit]) rest

theorem allKept_append (first second : List (Visit E)) : ∀ earlier : List (Visit E),
    AllKept eval earlier first → AllKept eval (earlier ++ first) second →
    AllKept eval earlier (first ++ second) := by
  induction first with
  | nil =>
      intro earlier _ keptSecond
      simpa using keptSecond
  | cons visit rest ih =>
      intro earlier keptFirst keptSecond
      refine ⟨keptFirst.1, ih (earlier ++ [visit]) keptFirst.2 ?_⟩
      simpa using keptSecond

theorem allKept_split (before after : List (Visit E)) (visit : Visit E) :
    ∀ earlier : List (Visit E), AllKept eval earlier (before ++ visit :: after) →
      ListKept eval (earlier ++ before) visit.mailspec := by
  induction before with
  | nil =>
      intro earlier kept
      simpa using kept.1
  | cons head rest ih =>
      intro earlier kept
      simpa using ih (earlier ++ [head]) kept.2

theorem listKept_congr {earlier : List (Visit E)} {mailspec other : Table}
    (same : other connectionCounted = mailspec connectionCounted)
    (kept : ListKept eval earlier mailspec) : ListKept eval earlier other := by
  unfold ListKept
  rw [same]
  exact kept

theorem greylistLoop_kept (gl : GreylistRule E) (origin envfrom : Bytes) (received : Int)
    (names : List Bytes) : ∀ (store : Store) (mailspec : Table) (maxDelay : Int)
      (earlier : List (Visit E)), ListKept eval earlier mailspec →
      AllKept eval earlier
        (greylistLoop cf eval gl origin envfrom received names store mailspec maxDelay).visits ∧
      ListKept eval
        (earlier ++
          (greylistLoop cf eval gl origin envfrom received names store mailspec maxDelay).visits)
        (greylistLoop cf eval gl origin envfrom received names store mailspec maxDelay).mailspec := by
  induction names with
  | nil =>
      intro store mailspec maxDelay earlier kept
      exact ⟨trivial, by simpa [greylistLoop] using kept⟩
  | cons envrcpt rest ih =>
      intro store mailspec maxDelay earlier kept
      generalize here : (⟨gl, ⟨origin, envfrom, envrcpt⟩, received, mailspec,
        store ⟨origin, envfrom, envrcpt⟩⟩ : Visit E) = visit
      have keptHere : ListKept eval earlier visit.mailspec := by
        rw [← here]
        exact kept
      have next := listKept_snoc cf eval visit keptHere
      have mailspecNext : (greylistRecipient cf eval gl store mailspec ⟨origin, envfrom, envrcpt⟩
          received).mailspec = (visit.attempt cf eval).mailspec := by
        rw [← here]
        rfl
      rw [← mailspecNext] at next
      simp only [greylistLoop, here]
      split
      · exact ⟨⟨keptHere, trivial⟩, next⟩
      · obtain ⟨visits, final⟩ := ih _ _ _ (earlier ++ [visit]) next
        refine ⟨⟨keptHere, visits⟩, ?_⟩
        rw [List.append_assoc] at final
        exact final

theorem greylistVerdict_visits (pass : Pass E) : (greylistVerdict pass).visits = pass.visits := by
  unfold greylistVerdict
  split
  · rfl
  · split
    · rfl
    · split
      · rfl
      · rfl

theorem greylistVerdict_counted (pass : Pass E) :
    (greylistVerdict pass).mailspec connectionCounted = pass.mailspec connectionCounted := by
  have distinct : connectionCounted ≠ "greylist_delayed" := by decide
  unfold greylistVerdict
  split
  · rfl
  · split
    · rfl
    · split
      · rfl
      · simp [distinct]

/-- The action fails before any call, makes one call, or loops over recipients. -/
theorem greylist_cases {stage : MilterStage} {gl : GreylistRule E} {store : Store}
    {mailspec : Table} {result : ActionResult E}
    (success : greylist cf eval stage gl store mailspec = some result) :
    result = ⟨.error, store, mailspec, []⟩ ∨
    (∃ tuple received, result = greylistVerdict
      (let outcome := greylistRecipient cf eval gl store mailspec tuple received
      ⟨outcome.result, outcome.delayed, outcome.store, outcome.mailspec,
        [⟨gl, tuple, received, mailspec, store tuple⟩]⟩)) ∨
    (∃ origin envfrom received names, result = greylistVerdict
      (greylistLoop cf eval gl origin envfrom received names store mailspec 0)) := by
  unfold greylist at success
  dsimp only at success
  split at success
  · exact .inl (Option.some.inj success).symm
  · split at success
    · split at success
      · split at success
        · exact .inr (.inl ⟨_, _, (Option.some.inj success).symm⟩)
        · cases success
      · split at success
        · split at success
          · exact .inr (.inr ⟨_, _, _, _, (Option.some.inj success).symm⟩)
          · cases success
        · cases success
    · cases success

theorem greylist_kept {stage : MilterStage} {gl : GreylistRule E} {store : Store}
    {mailspec : Table} {result : ActionResult E} {earlier : List (Visit E)}
    (success : greylist cf eval stage gl store mailspec = some result)
    (kept : ListKept eval earlier mailspec) :
    AllKept eval earlier result.visits ∧
      ListKept eval (earlier ++ result.visits) result.mailspec := by
  rcases greylist_cases cf eval success with
    rfl | ⟨tuple, received, rfl⟩ | ⟨origin, envfrom, received, names, rfl⟩
  · exact ⟨trivial, by simpa using kept⟩
  · rw [greylistVerdict_visits]
    refine ⟨⟨kept, trivial⟩, listKept_congr eval (greylistVerdict_counted _) ?_⟩
    exact listKept_snoc cf eval ⟨gl, tuple, received, mailspec, store tuple⟩ kept
  · obtain ⟨visits, final⟩ :=
      greylistLoop_kept cf eval gl origin envfrom received names store mailspec 0 earlier kept
    rw [greylistVerdict_visits]
    exact ⟨visits, listKept_congr eval (greylistVerdict_counted _) final⟩

theorem connectionVisits_kept (events : List (ConnectionEvent E)) :
    ∀ (store : Store) (carried : Table) (earlier : List (Visit E)),
      ListKept eval earlier carried →
      AllKept eval earlier (connectionVisits cf eval store carried events) := by
  induction events with
  | nil => intro store carried earlier _; exact trivial
  | cons event rest ih =>
      intro store carried earlier kept
      cases event with
      | elsewhere other => exact ih other carried earlier kept
      | action stage gl symbols =>
          have keptHere : ListKept eval earlier (atAction carried symbols) :=
            listKept_congr eval (by simp [atAction]) kept
          simp only [connectionVisits]
          cases success : greylist cf eval stage gl store (atAction carried symbols) with
          | none => exact trivial
          | some result =>
              obtain ⟨visits, final⟩ := greylist_kept cf eval success keptHere
              exact allKept_append eval _ _ earlier visits (ih _ _ _ final)

theorem countedOnce_iff_of_allKept {visits : List (Visit E)} (allKept : AllKept eval [] visits) :
    CountedOnce cf eval visits ↔
      ∀ earlier visit later, visits = earlier ++ visit :: later →
        CountsRight eval earlier visit := by
  have kept (earlier : List (Visit E)) (visit : Visit E) (later : List (Visit E))
      (split : visits = earlier ++ visit :: later) : ListKept eval earlier visit.mailspec := by
    subst split
    exact allKept_split eval earlier later visit [] allKept
  constructor
  · intro once earlier visit later split
    have before := once earlier.length visit.tuple
    have after := once (earlier.length + 1) visit.tuple
    have prefixBefore : visits.take earlier.length = earlier := by simp [split]
    have prefixAfter : visits.take (earlier.length + 1) = earlier ++ [visit] := by
      simp [split, List.take_append]
    rw [prefixBefore] at before
    rw [prefixAfter, totalRise_snoc, before] at after
    rw [countsRight_iff cf eval (kept earlier visit later split)]
    simpa using after
  · intro right n
    induction n with
    | zero => intro tuple; simp [totalRise, greylistedOn]
    | succ n ih =>
        intro tuple
        by_cases inside : n < visits.length
        · have split : visits = visits.take n ++ visits[n] :: visits.drop (n + 1) := by
            rw [List.getElem_cons_drop, List.take_append_drop]
          have step := (countsRight_iff cf eval (kept _ _ _ split)).mp (right _ _ _ split)
          have longer : visits.take (n + 1) = visits.take n ++ [visits[n]] := by simp
          rw [longer, totalRise_snoc, ih tuple]
          by_cases same : visits[n].tuple = tuple
          · subst same
            simpa using step
          · rw [greylistedOn_snoc]
            simp [same]
        · have longer : visits.take (n + 1) = visits.take n := by
            rw [List.take_of_length_le (by omega), List.take_of_length_le (by omega)]
          rw [longer]
          exact ih tuple

/-- The counters of a connection rise as they should exactly when every call of
its actions counts right. -/
theorem connection_counted_once_iff (store : Store) (events : List (ConnectionEvent E)) :
    CountedOnce cf eval (connectionVisits cf eval store (fun _ => none) events) ↔
      ∀ earlier visit later,
        connectionVisits cf eval store (fun _ => none) events = earlier ++ visit :: later →
        CountsRight eval earlier visit := by
  apply countedOnce_iff_of_allKept
  apply connectionVisits_kept
  exact .inl ⟨rfl, by simp [recipientUpdated]⟩

end Connection

/-! Two greylist rules hit by one recipient: the first creates the record with
one connection, the second counts the same connection again.  A second sender to
a recipient that was counted before is not counted at all. -/

def recipientSymbols (envfrom envrcpt : Bytes) : Table :=
  vtableSetv (fun _ => none)
    [("origin", .string (cstr "192.0.2.1")), ("envfrom_addr", .string envfrom),
      ("envrcpt_addr", .string envrcpt), ("recipient_list", .list [some (.string envrcpt)]),
      ("received", .int 1000)]

def tupleFrom (envfrom : Bytes) : Tuple :=
  ⟨cstr "192.0.2.1", envfrom, cstr "b@example.org"⟩

def rcptAction (envfrom : Bytes) : ConnectionEvent Int :=
  .action .envrcpt delayRule (recipientSymbols envfrom (cstr "b@example.org"))

def liveRecord : Record := { newRecord 500 with expire := 4100, deadline := 3600, delay := 600 }

/-- Both tuples have a live record with one connection. -/
def twoTuples : Store :=
  Function.update
    (Function.update (fun _ => none) (tupleFrom (cstr "a@example.org")) (some liveRecord))
    (tupleFrom (cstr "c@example.org")) (some liveRecord)

theorem connection_counted_twice_or_not_at_all :
    ¬ CountedOnce sampleConfig literalEval
      (connectionVisits sampleConfig literalEval (fun _ => none) (fun _ => none)
        [rcptAction (cstr "a@example.org"), rcptAction (cstr "a@example.org")]) ∧
    ¬ CountedOnce sampleConfig literalEval
      (connectionVisits sampleConfig literalEval twoTuples (fun _ => none)
        [rcptAction (cstr "c@example.org"), rcptAction (cstr "a@example.org")]) := by
  constructor
  · intro once
    have rise := once 2 (tupleFrom (cstr "a@example.org"))
    revert rise
    decide +kernel
  · intro once
    have rise := once 2 (tupleFrom (cstr "a@example.org"))
    revert rise
    decide +kernel

end Mopher.Greylist
