import Mopher.Lib.PartialRun

/-!
# Client slots of the control server

Model of the loop of `server_main` in `server.c`.  `server_clients` has a cell for
each of `MAX_CLIENTS` clients, with -1 for a free one, and a 0 behind them that ends
every search.  The answers of `select`, `accept` and `server_request` are events.
`SlotInvariant` relates the cells, the master set and `maxfd`; one lemma for a slot
that is taken and one for a slot that is freed carry it through the loop.
-/

set_option autoImplicit false

namespace Mopher.Server

def maxClients : Nat := 10

structure State where
  clients : List Int
  master : Finset Int
  maxfd : Int

/-- One turn of the loop: `select` was interrupted, or it returned a number and a set.
`accepted` is what `accept` returns and `request` what `server_request` does, if they
are called. -/
inductive Event where
  | interrupted
  | selected (ready : Int) (rs : Finset Int) (accepted : Int) (request : Int → Int)

/-- The descriptors in the slots. -/
def openClients (clients : List Int) : List Int := clients.filter (0 < ·)

def serverInit (socket : Int) : State where
  clients := List.replicate maxClients (-1) ++ [0]
  master := {socket}
  maxfd := socket

/-- The search for a free slot, with what is written to it; `none` is the cell that
holds 0. -/
def takeSlot (accepted : Int) : List Int → Option (List Int)
  | [] => none
  | c :: rest =>
      if 0 < c then (takeSlot accepted rest).map (c :: ·)
      else if c = 0 then none
      else some (accepted :: rest)

section Loop
variable (socket : Int) (rs : Finset Int) (request : Int → Int)

/-- The loop over the clients, from a cell on. -/
def serveClients : List Int → Int → Finset Int → Int → List Int × Finset Int × Int
  | [], _, master, maxfd => ([], master, maxfd)
  | c :: rest, ready, master, maxfd =>
      if c = 0 ∨ ready = 0 then (c :: rest, master, maxfd)
      else if c = -1 ∨ c ∉ rs then
        let (rest, master, maxfd) := serveClients rest ready master maxfd
        (c :: rest, master, maxfd)
      else if request c ≠ -1 ∧ request c ≠ 0 then
        let (rest, master, maxfd) := serveClients rest (ready - 1) master maxfd
        (c :: rest, master, maxfd)
      else
        -- the slot holds -1 when it is compared
        let maxfd := if -1 = maxfd then 0 else maxfd
        let (rest, master, maxfd) := serveClients rest (ready - 1) (insert socket (master.erase c)) maxfd
        (-1 :: rest, master, maxfd)

/-- The loop that calculates `maxfd`. -/
def maxClient : List Int → Int → Int
  | [], maxfd => maxfd
  | c :: rest, maxfd => if c = 0 then maxfd else maxClient rest (if maxfd < c then c else maxfd)

/-- The turn after new connections were handled. -/
def serveReady (ready : Int) (s : State) : State :=
  let (clients, master, maxfd) := serveClients socket rs request s.clients ready s.master s.maxfd
  ⟨clients, master, if maxfd ≠ 0 then maxfd else maxClient clients maxfd⟩

/-- `accept` returns -1 or a descriptor that is not open. -/
def Accepts (accepted : Int) (s : State) : Prop :=
  accepted = -1 ∨ 0 < accepted ∧ accepted ≠ socket ∧ accepted ∉ s.clients

instance (accepted : Int) (s : State) : Decidable (Accepts socket accepted s) :=
  inferInstanceAs (Decidable (_ ∨ _ ∧ _ ∧ _))

/-- A new client, or no slot for it; `none` is an answer of `accept` that cannot be. -/
def serveConnection (accepted : Int) (s : State) : Option State :=
  match takeSlot accepted s.clients with
  | none => some { s with master := s.master.erase socket }
  | some clients =>
      if Accepts socket accepted s then
        if accepted = -1 then some { s with clients := clients }
        else
          some ⟨clients, insert accepted s.master, if s.maxfd < accepted then accepted else s.maxfd⟩
      else none

end Loop

/-- From one loop head to the next. -/
def serverStep (socket : Int) (s : State) : Event → Option State
  | .interrupted => some s
  | .selected ready rs accepted request =>
      if socket ∈ rs then
        (serveConnection socket accepted s).map fun s =>
          if ready - 1 = 0 then s else serveReady socket rs request (ready - 1) s
      else some (serveReady socket rs request ready s)

/-- At a loop head: the slots end with the 0, the open descriptors differ, are the ones
of the master set and are at most `maxfd`, and the server listens if a slot is free. -/
structure SlotInvariant (socket : Int) (s : State) : Prop where
  slots : ∃ slots, s.clients = slots ++ [0] ∧ slots.length = maxClients ∧
    ∀ c ∈ slots, c = -1 ∨ 0 < c
  distinct : (openClients s.clients).Nodup
  apart : socket ∉ openClients s.clients
  master : ∀ fd, fd ≠ socket → (fd ∈ s.master ↔ fd ∈ openClients s.clients)
  below : ∀ c ∈ openClients s.clients, c ≤ s.maxfd
  listening : -1 ∈ s.clients → socket ∈ s.master

/-! ## Cells -/

theorem mem_openClients {clients : List Int} {fd : Int} :
    fd ∈ openClients clients ↔ fd ∈ clients ∧ 0 < fd := by
  simp [openClients]

theorem openClients_append (front back : List Int) :
    openClients (front ++ back) = openClients front ++ openClients back :=
  List.filter_append ..

theorem openClients_cons_open {c : Int} (isOpen : 0 < c) (rest : List Int) :
    openClients (c :: rest) = c :: openClients rest := by
  simp [openClients, isOpen]

theorem openClients_cons_free (rest : List Int) : openClients (-1 :: rest) = openClients rest := by
  simp [openClients]

/-- A cell that is not 0 is one of the slots. -/
theorem slot_of_cell {front rest slots : List Int} {c : Int} (cell : c ≠ 0)
    (same : front ++ c :: rest = slots ++ [0]) :
    ∃ rest', rest = rest' ++ [0] ∧ slots = front ++ c :: rest' := by
  rcases List.eq_nil_or_concat rest with rfl | ⟨rest', d, rfl⟩
  · obtain ⟨_, last⟩ := List.append_inj' same rfl
    cases last
    exact (cell rfl).elim
  · rw [List.concat_eq_append] at same ⊢
    rw [← List.cons_append, ← List.append_assoc] at same
    obtain ⟨before, last⟩ := List.append_inj' same rfl
    cases last
    exact ⟨rest', rfl, before.symm⟩

/-- Another number in a slot. -/
theorem slots_replace {front rest : List Int} {c c' : Int} (cell : c ≠ 0)
    (valid : c' = -1 ∨ 0 < c')
    (slots : ∃ slots, front ++ c :: rest = slots ++ [0] ∧ slots.length = maxClients ∧
      ∀ c ∈ slots, c = -1 ∨ 0 < c) :
    ∃ slots, front ++ c' :: rest = slots ++ [0] ∧ slots.length = maxClients ∧
      ∀ c ∈ slots, c = -1 ∨ 0 < c := by
  obtain ⟨slots, same, length, all⟩ := slots
  obtain ⟨rest', rfl, rfl⟩ := slot_of_cell cell same
  refine ⟨front ++ c' :: rest', by simp, ?_, ?_⟩
  · rw [← length]
    simp
  · intro d member
    rcases List.mem_append.mp member with before | after
    · exact all d (List.mem_append.mpr (.inl before))
    · rcases List.mem_cons.mp after with rfl | after
      · exact valid
      · exact all d (List.mem_append.mpr (.inr (List.mem_cons_of_mem c after)))

/-! ## A slot is freed, a slot is taken -/

section Steps
variable {socket : Int} {front rest : List Int} {master : Finset Int} {maxfd : Int}

theorem slotInvariant_free {c : Int} (isOpen : 0 < c)
    (inv : SlotInvariant socket ⟨front ++ c :: rest, master, maxfd⟩) :
    SlotInvariant socket ⟨front ++ -1 :: rest, insert socket (master.erase c), maxfd⟩ := by
  have before : openClients (front ++ c :: rest) = openClients front ++ c :: openClients rest := by
    rw [openClients_append, openClients_cons_open isOpen]
  have after : openClients (front ++ -1 :: rest) = openClients front ++ openClients rest := by
    rw [openClients_append, openClients_cons_free]
  have distinct := inv.distinct
  have apart := inv.apart
  simp only [before] at distinct apart
  have gone : c ∉ openClients front ++ openClients rest := (List.nodup_middle.mp distinct).notMem
  constructor
  · exact slots_replace (by omega) (.inl rfl) inv.slots
  · simp only [after]
    exact (List.nodup_middle.mp distinct).of_cons
  · simp only [after]
    intro member
    apply apart
    simp only [List.mem_append, List.mem_cons] at member ⊢
    tauto
  · intro fd different
    have same := inv.master fd different
    simp only [before, List.mem_append, List.mem_cons] at same
    simp only [after, Finset.mem_insert, different, false_or, Finset.mem_erase, same,
      List.mem_append]
    simp only [List.mem_append] at gone
    constructor
    · rintro ⟨other, member⟩
      tauto
    · intro member
      refine ⟨?_, by tauto⟩
      rintro rfl
      exact gone member
  · intro d member
    apply inv.below d
    simp only [before, after, List.mem_append, List.mem_cons] at member ⊢
    tauto
  · intro _
    exact Finset.mem_insert_self socket _

theorem slotInvariant_take {fd : Int} (isOpen : 0 < fd) (other : fd ≠ socket)
    (fresh : fd ∉ front ++ -1 :: rest)
    (inv : SlotInvariant socket ⟨front ++ -1 :: rest, master, maxfd⟩) :
    SlotInvariant socket
      ⟨front ++ fd :: rest, insert fd master, if maxfd < fd then fd else maxfd⟩ := by
  have before : openClients (front ++ -1 :: rest) = openClients front ++ openClients rest := by
    rw [openClients_append, openClients_cons_free]
  have after : openClients (front ++ fd :: rest) = openClients front ++ fd :: openClients rest := by
    rw [openClients_append, openClients_cons_open isOpen]
  have new : fd ∉ openClients front ++ openClients rest := by
    rw [← before]
    intro member
    exact fresh (mem_openClients.mp member).1
  have distinct := inv.distinct
  have apart := inv.apart
  simp only [before] at distinct apart
  constructor
  · exact slots_replace (by decide) (.inr isOpen) inv.slots
  · simp only [after]
    exact List.nodup_middle.mpr (List.nodup_cons.mpr ⟨new, distinct⟩)
  · simp only [after, List.mem_append, List.mem_cons] at apart ⊢
    have differs := Ne.symm other
    tauto
  · intro d different
    have same := inv.master d different
    simp only [before, List.mem_append] at same
    simp only [after, Finset.mem_insert, same, List.mem_append, List.mem_cons]
    tauto
  · intro d member
    simp only [after, List.mem_append, List.mem_cons] at member
    have old (inside : d ∈ openClients front ∨ d ∈ openClients rest) : d ≤ maxfd := by
      apply inv.below d
      simp only [before, List.mem_append]
      exact inside
    have bound : d ≤ maxfd ∨ d = fd := by tauto
    change d ≤ if maxfd < fd then fd else maxfd
    split
    · omega
    · omega
  · intro _
    -- the slot was free before
    exact Finset.mem_insert_of_mem (inv.listening (by simp))

end Steps

/-! ## The loops -/

section Loops
variable {socket : Int}

/-- The search ends at the first cell that is free, or at the 0. -/
theorem takeSlot_cases (accepted : Int) (slots : List Int) (valid : ∀ c ∈ slots, c = -1 ∨ 0 < c) :
    (takeSlot accepted (slots ++ [0]) = none ∧ ∀ c ∈ slots, 0 < c) ∨
      ∃ front rest, slots ++ [0] = front ++ -1 :: rest ∧
        takeSlot accepted (slots ++ [0]) = some (front ++ accepted :: rest) := by
  induction slots with
  | nil => exact .inl ⟨rfl, by simp⟩
  | cons c slots ih =>
      rw [List.cons_append, takeSlot]
      rcases valid c (by simp) with rfl | isOpen
      · exact .inr ⟨[], slots ++ [0], rfl, rfl⟩
      · rw [if_pos isOpen]
        rcases ih fun d member => valid d (List.mem_cons_of_mem c member) with
          ⟨full, all⟩ | ⟨front, rest, same, taken⟩
        · refine .inl ⟨by rw [full]; rfl, ?_⟩
          simpa [isOpen] using all
        · refine .inr ⟨c :: front, rest, by rw [same]; rfl, ?_⟩
          rw [taken]
          rfl

theorem slotInvariant_connection {s next : State} {accepted : Int} (inv : SlotInvariant socket s)
    (served : serveConnection socket accepted s = some next) : SlotInvariant socket next := by
  obtain ⟨clients, master, maxfd⟩ := s
  obtain ⟨slots, same, length, valid⟩ := inv.slots
  subst same
  unfold serveConnection at served
  rcases takeSlot_cases accepted slots valid with ⟨full, all⟩ | ⟨front, rest, place, taken⟩
  · simp only [full] at served
    cases served
    refine ⟨inv.slots, inv.distinct, inv.apart, ?_, inv.below, ?_⟩
    · intro fd different
      rw [Finset.mem_erase]
      simp only [different, ne_eq, not_false_eq_true, true_and]
      exact inv.master fd different
    · -- every slot is taken
      intro free
      rcases List.mem_append.mp free with inside | last
      · have := all _ inside
        omega
      · simp at last
  · simp only [taken] at served
    rw [place] at inv served
    split at served
    · rename_i accepts
      rcases accepts with rfl | ⟨isOpen, other, fresh⟩
      · simp only [if_true] at served
        cases served
        exact inv
      · rw [if_neg (by omega)] at served
        cases served
        exact slotInvariant_take isOpen other fresh inv
    · cases served

/-- The loop over the clients, behind the cells that it has passed. -/
theorem slotInvariant_clients (rs : Finset Int) (request : Int → Int) (rest : List Int) :
    ∀ (front : List Int) (ready : Int) (master : Finset Int) (maxfd : Int),
      SlotInvariant socket ⟨front ++ rest, master, maxfd⟩ →
        SlotInvariant socket
          ⟨front ++ (serveClients socket rs request rest ready master maxfd).1,
            (serveClients socket rs request rest ready master maxfd).2.1,
            (serveClients socket rs request rest ready master maxfd).2.2⟩ := by
  induction rest with
  | nil =>
      intro front ready master maxfd inv
      exact inv
  | cons c rest ih =>
      intro front ready master maxfd inv
      -- a cell that stays is passed
      have passed (ready : Int) := ih (front ++ [c]) ready master maxfd (by
        rw [List.append_assoc]
        exact inv)
      simp only [List.append_assoc, List.singleton_append] at passed
      unfold serveClients
      split
      · exact inv
      · rename_i running
        split
        · exact passed ready
        · rename_i served
          split
          · exact passed (ready - 1)
          · obtain ⟨slots, same, _, valid⟩ := inv.slots
            have isOpen : 0 < c := by
              obtain ⟨rest', _, rfl⟩ := slot_of_cell (fun zero => running (.inl zero)) same
              have := valid c (by simp)
              tauto
            have bound : c ≤ maxfd := inv.below c (mem_openClients.mpr ⟨by simp, isOpen⟩)
            have kept : ¬ (-1 = maxfd) := by omega
            have freed := ih (front ++ [-1]) (ready - 1) (insert socket (master.erase c)) maxfd (by
              rw [List.append_assoc]
              exact slotInvariant_free isOpen inv)
            simp only [List.append_assoc, List.singleton_append] at freed
            rw [if_neg kept]
            exact freed

theorem le_maxClient (clients : List Int) : ∀ maxfd : Int, maxfd ≤ maxClient clients maxfd := by
  induction clients with
  | nil => intro maxfd; exact le_refl maxfd
  | cons c rest ih =>
      intro maxfd
      rw [maxClient]
      split
      · exact le_refl maxfd
      · split
        · have := ih c
          omega
        · exact ih maxfd

theorem slotInvariant_ready (rs : Finset Int) (request : Int → Int) (ready : Int) {s : State}
    (inv : SlotInvariant socket s) : SlotInvariant socket (serveReady socket rs request ready s) := by
  have served := slotInvariant_clients rs request s.clients [] ready s.master s.maxfd inv
  rw [List.nil_append] at served
  unfold serveReady
  refine ⟨served.slots, served.distinct, served.apart, served.master, ?_, served.listening⟩
  intro c member
  have bound := served.below c member
  simp only [] at bound ⊢
  split
  · exact bound
  · exact bound.trans (le_maxClient _ _)

/-- From one loop head to the next. -/
theorem slotInvariant_step {s next : State} {event : Event} (inv : SlotInvariant socket s)
    (stepped : serverStep socket s event = some next) : SlotInvariant socket next := by
  cases event with
  | interrupted =>
      cases stepped
      exact inv
  | selected ready rs accepted request =>
      rw [serverStep] at stepped
      split at stepped
      · obtain ⟨s', connected, rfl⟩ := Option.map_eq_some_iff.mp stepped
        have inv' := slotInvariant_connection inv connected
        split
        · exact inv'
        · exact slotInvariant_ready rs request (ready - 1) inv'
      · cases stepped
        exact slotInvariant_ready rs request ready inv

end Loops

/-! ## Runs -/

theorem slotInvariant_init (socket : Int) : SlotInvariant socket (serverInit socket) := by
  have none' : openClients (serverInit socket).clients = [] := rfl
  refine ⟨⟨List.replicate maxClients (-1), rfl, by simp, ?_⟩, ?_, ?_, ?_, ?_, ?_⟩
  · intro c member
    exact .inl (List.eq_of_mem_replicate member)
  · rw [none']
    exact List.nodup_nil
  · rw [none']
    exact List.not_mem_nil
  · intro fd different
    rw [none']
    simpa [serverInit] using different
  · intro c member
    rw [none'] at member
    cases member
  · intro _
    exact Finset.mem_singleton_self socket

theorem length_openClients {socket : Int} {s : State} (inv : SlotInvariant socket s) :
    (openClients s.clients).length ≤ maxClients := by
  obtain ⟨slots, same, length, _⟩ := inv.slots
  rw [same, openClients_append, ← length]
  have ended : openClients [0] = [] := by decide
  rw [ended, List.append_nil]
  exact List.length_filter_le _ _

end Mopher.Server
