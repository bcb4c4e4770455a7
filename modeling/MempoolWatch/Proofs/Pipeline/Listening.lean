import MempoolWatch.Proofs.Pipeline.Statistics

/-! What the loop takes in while it listens, and why it stops. Until it stops it takes in hashes
only, and each of them gets its invocation; what it takes in last, a fault, the end of the feed
or a stop signal, gives the reason, and after that it takes in nothing. What becomes of the
invocations has no part in this. -/
namespace MempoolWatch.Pipeline

inductive Intake
  | item (item : Except Fault Hash)
  /-- The end of the feed. -/
  | ending
  | signal

namespace Intake

def item? : Intake → Option (Except Fault Hash)
  | .item read => some read
  | _ => none

def hash? : Intake → Option Hash
  | item (.ok hash) => some hash
  | _ => none

/-- The reason to stop listening, if it is one. -/
def stop? : Intake → Option Termination
  | item (.ok _) => none
  | item (.error cause) => some (.transport cause.message)
  | ending => some .closed
  | signal => some .interrupted

theorem stop?_eq_transport_iff {intake : Intake} {text : String} :
    intake.stop? = some (.transport text) ↔
      ∃ cause, intake = item (.error cause) ∧ cause.message = text := by
  rcases intake with (cause | hash) | _ | _ <;> simp [stop?]

theorem stop?_eq_closed_iff {intake : Intake} : intake.stop? = some .closed ↔ intake = ending := by
  rcases intake with (cause | hash) | _ | _ <;> simp [stop?]

theorem stop?_eq_interrupted_iff {intake : Intake} :
    intake.stop? = some .interrupted ↔ intake = signal := by
  rcases intake with (cause | hash) | _ | _ <;> simp [stop?]

theorem hash?_of_stop {intake : Intake} {why : Termination} (stops : intake.stop? = some why) :
    intake.hash? = none := by
  rcases intake with (cause | hash) | _ | _
  · rfl
  · cases stops
  · rfl
  · rfl

end Intake

variable {σ : Type} {setup : Setup}

/-- What an action of the loop takes in. -/
def State.intake? (state : State σ) : Action → Option Intake
  | .read =>
    match state.unread with
    | item :: _ => some (.item item)
    | [] => some .ending
  | .interrupt => if state.phase.isOpen then some .signal else none
  | _ => none

/-- What the loop takes in along a run. -/
def State.intakes [Report.Sink σ] (setup : Setup) : State σ → List Action → List Intake
  | _, [] => []
  | state, action :: actions =>
    match state.step? setup action with
    | some next => (state.intake? action).toList ++ intakes setup next actions
    | none => []

theorem Phase.why?_eq_none_iff {phase : Phase} : phase.why? = none ↔ phase.isOpen = true := by
  cases phase <;> simp [why?, isOpen]

variable [Report.Sink σ] {state next : State σ} {action : Action}

/-- A step takes in nothing, or a hash for a new invocation, or what stops the listening. -/
theorem Transition.intake_cases (case : Transition setup state action next) :
    (state.intake? action = none ∧ next.unread = state.unread ∧ next.hashes = state.hashes ∧
      next.phase.why? = state.phase.why?) ∨
    (∃ hash, state.intake? action = some (.item (.ok hash)) ∧
      state.unread = .ok hash :: next.unread ∧ next.hashes = state.hashes ++ [hash] ∧
      state.phase.why? = none ∧ next.phase.why? = none) ∨
    (∃ intake why, state.intake? action = some intake ∧ intake.stop? = some why ∧
      state.unread = intake.item?.toList ++ next.unread ∧ next.hashes = state.hashes ∧
      state.phase.why? = none ∧ next.phase.why? = some why) := by
  cases case with
  | advance | signal | record => exact Or.inl ⟨rfl, rfl, rfl, rfl⟩
  | join split | fetch split | analyze split | crash split | deliver split | abort split =>
    refine Or.inl ⟨rfl, rfl, ?_, rfl⟩
    simp only [State.hashes, split, List.map_append, List.map_cons, Invocation.atStage_hash,
      Invocation.noticed_hash]
  | acquire phase | settleDraining phase | settleAborting phase | finish phase =>
    exact Or.inl ⟨rfl, rfl, rfl, by rw [phase]; rfl⟩
  | expire phase =>
    refine Or.inl ⟨rfl, rfl, rfl, ?_⟩
    rw [State.why?_cutShort, phase]
    rfl
  | interruptDraining pending phase =>
    refine Or.inl ⟨?_, rfl, rfl, ?_⟩
    · rw [State.intake?, phase]
      rfl
    · rw [State.why?_cutShort, phase]
      rfl
  | interruptListening pending listens =>
    refine Or.inr (Or.inr ⟨.signal, .interrupted, ?_, rfl, rfl, rfl, ?_, rfl⟩)
    · rw [State.intake?, if_pos listens]
    · exact Phase.why?_eq_none_iff.mpr listens
  | @readHash hash rest listening quiet unread =>
    refine Or.inr (Or.inl ⟨hash, ?_, unread, ?_, ?_, rfl⟩)
    · rw [State.intake?, unread]
    · simp only [State.hashes, List.map_append, List.map_cons, List.map_nil, Invocation.spawn_hash]
    · rw [listening]
      rfl
  | @readFault cause rest listening quiet unread =>
    refine Or.inr (Or.inr ⟨.item (.error cause), .transport cause.message, ?_, rfl, unread, rfl, ?_,
      rfl⟩)
    · rw [State.intake?, unread]
    · rw [listening]
      rfl
  | readEnd listening quiet unread closes =>
    refine Or.inr (Or.inr ⟨.ending, .closed, ?_, rfl, rfl, rfl, ?_, rfl⟩)
    · rw [State.intake?, unread]
    · rw [listening]
      rfl

/-- The feed is what was taken in of it and what is unread, and the loop has taken in the hashes
of its invocations and then, if it has stopped, the reason for that. -/
structure State.Heard (setup : Setup) (intakes : List Intake) (state : State σ) : Prop where
  consumed : setup.feed = intakes.filterMap Intake.item? ++ state.unread
  last : ∃ last : Option Intake,
    intakes = state.hashes.map (fun hash => .item (.ok hash)) ++ last.toList ∧
      last.map Intake.stop? = state.phase.why?.map some

namespace State.Heard

variable {intakes : List Intake}

omit [Report.Sink σ] in
theorem start (ledger : Ledger σ) : (State.start setup ledger).Heard setup [] :=
  ⟨rfl, none, rfl, rfl⟩

omit [Report.Sink σ] in
theorem intakes_of_listening (heard : state.Heard setup intakes)
    (listening : state.phase.why? = none) :
    intakes = state.hashes.map (fun hash => .item (.ok hash)) := by
  obtain ⟨last, taken, reason⟩ := heard.last
  rw [listening] at reason
  obtain rfl : last = none := Option.map_eq_none_iff.mp reason
  rw [taken, Option.toList_none, List.append_nil]

omit [Report.Sink σ] in
/-- The invocations are those of the hashes that were taken in, in order and once each. -/
theorem hashes_eq (heard : state.Heard setup intakes) :
    state.hashes = intakes.filterMap Intake.hash? := by
  obtain ⟨last, taken, reason⟩ := heard.last
  have silent : last.toList.filterMap Intake.hash? = [] := by
    cases last with
    | none => rfl
    | some intake =>
      obtain ⟨why, _, stops⟩ := Option.map_eq_some_iff.mp reason.symm
      have mute := Intake.hash?_of_stop stops.symm
      simp [mute]
  rw [taken, List.filterMap_append, silent, List.append_nil, List.filterMap_map]
  exact List.filterMap_some.symm

omit [Report.Sink σ] in
/-- A reason is the one to stop exactly when it was taken in. -/
theorem why?_eq_some_iff (heard : state.Heard setup intakes) {why : Termination} :
    state.phase.why? = some why ↔ ∃ intake ∈ intakes, intake.stop? = some why := by
  obtain ⟨last, taken, reason⟩ := heard.last
  have hashes (intake : Intake) :
      intake ∈ state.hashes.map (fun hash => Intake.item (.ok hash)) → intake.stop? = none := by
    intro member
    obtain ⟨hash, _, rfl⟩ := List.mem_map.mp member
    rfl
  constructor
  · intro stopped
    rw [stopped] at reason
    obtain ⟨intake, rfl, stops⟩ := Option.map_eq_some_iff.mp reason
    exact ⟨intake, by simp [taken], stops⟩
  · rintro ⟨intake, member, stops⟩
    rw [taken] at member
    rcases List.mem_append.mp member with earlier | final
    · rw [hashes intake earlier] at stops
      contradiction
    · rw [Option.mem_toList] at final
      rw [final, Option.map_some, stops] at reason
      obtain ⟨actual, stopped, same⟩ := Option.map_eq_some_iff.mp reason.symm
      rw [stopped, same]

end State.Heard

theorem Transition.heard {intakes : List Intake} (case : Transition setup state action next)
    (heard : state.Heard setup intakes) :
    next.Heard setup (intakes ++ (state.intake? action).toList) := by
  obtain ⟨none, unread, hashes, why⟩ | ⟨hash, some, unread, hashes, before, after⟩ |
    ⟨intake, why, some, stops, unread, hashes, before, after⟩ := case.intake_cases
  · obtain ⟨last, taken, reason⟩ := heard.last
    rw [none, Option.toList_none, List.append_nil]
    refine ⟨?_, last, ?_, ?_⟩
    · rw [heard.consumed, unread]
    · rw [taken, hashes]
    · rw [reason, why]
  · have taken := heard.intakes_of_listening before
    rw [some]
    refine ⟨?_, .none, ?_, ?_⟩
    · rw [heard.consumed, unread, List.filterMap_append, List.append_assoc]
      rfl
    · rw [taken, hashes, List.map_append, Option.toList_none, List.append_nil]
      rfl
    · rw [after]
      rfl
  · have taken := heard.intakes_of_listening before
    rw [some]
    refine ⟨?_, .some intake, ?_, ?_⟩
    · rw [heard.consumed, unread, List.filterMap_append, List.append_assoc]
      cases item : intake.item? <;> simp [item]
    · rw [taken, hashes]
    · rw [after, Option.map_some, Option.map_some, stops]

theorem Reaches.heard {first : State σ} {actions : List Action} {intakes : List Intake}
    (run : Reaches setup first actions state) (heard : first.Heard setup intakes) :
    state.Heard setup (intakes ++ State.intakes setup first actions) := by
  induction run generalizing intakes with
  | refl => rwa [State.intakes, List.append_nil]
  | next step _ ih =>
    have case := Transition.of_step step
    rw [State.intakes, step, ← List.append_assoc]
    exact ih (case.heard heard)

/-- Once stopped, the loop takes in nothing. -/
theorem Transition.of_stopped {why : Termination} (case : Transition setup state action next)
    (stopped : state.phase.why? = some why) :
    next.phase.why? = some why ∧ next.unread = state.unread ∧ next.hashes = state.hashes := by
  obtain ⟨_, unread, hashes, same⟩ | ⟨_, _, _, _, before, _⟩ | ⟨_, _, _, _, _, _, before, _⟩ :=
    case.intake_cases
  · exact ⟨same.trans stopped, unread, hashes⟩
  · rw [stopped] at before
    contradiction
  · rw [stopped] at before
    contradiction

theorem Reaches.of_stopped {why : Termination} {later : State σ} {more : List Action}
    (run : Reaches setup state more later) (stopped : state.phase.why? = some why) :
    later.phase.why? = some why ∧ later.unread = state.unread ∧ later.hashes = state.hashes := by
  induction run with
  | refl => exact ⟨stopped, rfl, rfl⟩
  | next step _ ih =>
    obtain ⟨why, unread, hashes⟩ := (Transition.of_step step).of_stopped stopped
    obtain ⟨laterWhy, laterUnread, laterHashes⟩ := ih why
    exact ⟨laterWhy, laterUnread.trans unread, laterHashes.trans hashes⟩

omit [Report.Sink σ] in
theorem State.read?_of_stopped {why : Termination} (stopped : state.phase.why? = some why) :
    state.read? setup = none := by
  apply if_neg
  rintro ⟨listening, _⟩
  rw [listening] at stopped
  contradiction

omit [Report.Sink σ] in
theorem State.read?_of_signal (pending : 0 < state.signals) : state.read? setup = none := by
  apply if_neg
  rintro ⟨_, quiet⟩
  omega

/-- Between two permits or hashes, a signal that is there is taken first. -/
theorem State.interrupt_of_signal (listens : state.phase.isOpen = true)
    (pending : 0 < state.signals) :
    ∃ next, state.step? setup .interrupt = some next ∧ next.unread = state.unread ∧
      next.invocations = state.invocations ∧ next.phase.why? = some .interrupted :=
  ⟨_, (Transition.interruptListening pending listens).possible, rfl, rfl, rfl⟩

theorem State.phase_of_invocation {index : Nat}
    (own : action ∈ [.join index, .fetch index, .analyze index, .deliver index, .abort index])
    (step : state.step? setup action = some next) : next.phase = state.phase := by
  have case := Transition.of_step step
  simp only [List.mem_cons, List.not_mem_nil, or_false] at own
  rcases own with rfl | rfl | rfl | rfl | rfl <;> cases case <;> rfl

/-- A run whose permits may have been closed: a loop that asks for one is then refused, and
stops as if interrupted. -/
structure Closable (σ : Type) where
  state : State σ
  closed : Bool

namespace Closable

def step? (setup : Setup) (run : Closable σ) (action : Action) : Option (Closable σ) :=
  if run.closed = true ∧ action = .acquire then
    if run.state.phase = .acquiring ∧ run.state.signals = 0 then
      some { run with state := run.state.stopListening setup .interrupted }
    else none
  else (run.state.step? setup action).map fun next => { run with state := next }

def perform? (setup : Setup) (actions : List Action) (run : Closable σ) : Option (Closable σ) :=
  actions.foldlM (step? setup) run

theorem step?_of_open (action : Action) :
    step? setup ⟨state, false⟩ action = (state.step? setup action).map (⟨·, false⟩) := by
  apply if_neg
  rintro ⟨closed, _⟩
  contradiction

/-- No step closes the permits, so that no loop is ever refused one. -/
theorem never_refused {actions : List Action} {last : Closable σ}
    (performed : perform? setup actions ⟨state, false⟩ = some last) :
    last.closed = false ∧ Reaches setup state actions last.state := by
  induction actions generalizing state with
  | nil =>
    cases performed
    exact ⟨rfl, .refl _⟩
  | cons action rest ih =>
    obtain ⟨second, step, behind⟩ := Option.bind_eq_some_iff.mp performed
    rw [step?_of_open] at step
    obtain ⟨next, taken, rfl⟩ := Option.map_eq_some_iff.mp step
    obtain ⟨unclosed, reaches⟩ := ih behind
    exact ⟨unclosed, .next taken reaches⟩

end Closable

/-- In every order of steps the invocations are those of the hashes that the loop has taken in,
one for each in their order, and what it has taken in of the feed is the part before the unread
one. It stops with the text of a fault exactly when it took in the fault, as closed exactly when
it took in the end of the feed, and as interrupted exactly when it took in a signal. From then on
the feed is not read and no invocation starts. A signal that is there comes before the next item,
which stays unread; the steps of invocations, and taking notice of their ends, leave the loop where
it is; and a loop that could be refused a permit never is. -/
theorem listening_stops_by_what_it_takes_in {ledger : Ledger σ} {actions : List Action}
    (run : Reaches setup (.start setup ledger) actions state) :
    let intakes := State.intakes setup (.start setup ledger) actions
    setup.feed = intakes.filterMap Intake.item? ++ state.unread ∧
    state.hashes = intakes.filterMap Intake.hash? ∧
    (∀ text, state.phase.why? = some (.transport text) ↔
      ∃ cause, .item (.error cause) ∈ intakes ∧ cause.message = text) ∧
    (state.phase.why? = some .closed ↔ .ending ∈ intakes) ∧
    (state.phase.why? = some .interrupted ↔ .signal ∈ intakes) ∧
    (∀ why more later, state.phase.why? = some why → Reaches setup state more later →
      later.phase.why? = some why ∧ later.unread = state.unread ∧ later.hashes = state.hashes ∧
        later.step? setup .read = none) ∧
    (state.phase.isOpen = true → 0 < state.signals → state.step? setup .read = none ∧
      ∃ next, state.step? setup .interrupt = some next ∧ next.unread = state.unread ∧
        next.invocations = state.invocations ∧ next.phase.why? = some .interrupted) ∧
    (∀ index action next,
      action ∈ [.join index, .fetch index, .analyze index, .deliver index, .abort index] →
      state.step? setup action = some next → next.phase = state.phase) ∧
    (∀ taken last, Closable.perform? setup taken ⟨.start setup ledger, false⟩ = some last →
      last.closed = false ∧ Reaches setup (.start setup ledger) taken last.state) := by
  intro intakes
  have heard : state.Heard setup intakes := run.heard (State.Heard.start ledger)
  refine ⟨heard.consumed, heard.hashes_eq, ?_, ?_, ?_, ?_, ?_, ?_, ?_⟩
  · intro text
    rw [heard.why?_eq_some_iff]
    constructor
    · rintro ⟨intake, member, stops⟩
      obtain ⟨cause, rfl, same⟩ := Intake.stop?_eq_transport_iff.mp stops
      exact ⟨cause, member, same⟩
    · rintro ⟨cause, member, same⟩
      exact ⟨_, member, Intake.stop?_eq_transport_iff.mpr ⟨cause, rfl, same⟩⟩
  · simp only [heard.why?_eq_some_iff, Intake.stop?_eq_closed_iff, exists_eq_right]
  · simp only [heard.why?_eq_some_iff, Intake.stop?_eq_interrupted_iff, exists_eq_right]
  · intro why more later stopped behind
    obtain ⟨same, unread, hashes⟩ := behind.of_stopped stopped
    exact ⟨same, unread, hashes, State.read?_of_stopped same⟩
  · intro listens pending
    exact ⟨State.read?_of_signal pending, State.interrupt_of_signal listens pending⟩
  · intro index action next own step
    exact State.phase_of_invocation own step
  · intro taken last performed
    exact Closable.never_refused performed

/-- A hash is announced, then the subscription fails, and another hash would be there. -/
def failingFeed : Setup where
  settings := {}
  analyze := fun hash => ⟨some (.notFound hash), 0⟩
  feed := [.ok (.fill 32 1), .error (.connection "reset"), .ok (.fill 32 2)]
  staysOpen := true

def failingFeedEnd : State Report.Transcript :=
  (Simulation.complete failingFeed ⟨[0, 0, 0], [], fun _ => some 0⟩ ⟨0, 0, 0, 0⟩
    (.new freshTranscript)).state

theorem failing_feed_stops_by_its_fault :
    ∃ actions,
      Reaches failingFeed (.start failingFeed (.new freshTranscript)) actions failingFeedEnd ∧
      failingFeedEnd.phase.why? = some (.transport "Erro de conexão: reset") ∧
      failingFeedEnd.unread = [.ok (.fill 32 2)] ∧
      ∃ cause, cause.message = "Erro de conexão: reset" ∧
        .item (.error cause) ∈
          State.intakes failingFeed (.start failingFeed (.new freshTranscript)) actions := by
  obtain ⟨actions, run⟩ : ∃ actions,
      Reaches failingFeed (.start failingFeed (.new freshTranscript)) actions failingFeedEnd :=
    Simulation.complete_reaches _ _ _ _
  have stopped : failingFeedEnd.phase.why? = some (.transport "Erro de conexão: reset") := by
    decide +kernel
  have unread : failingFeedEnd.unread = [.ok (.fill 32 2)] := by rfl
  obtain ⟨_, _, transport, _⟩ := listening_stops_by_what_it_takes_in run
  obtain ⟨cause, member, same⟩ := (transport _).mp stopped
  exact ⟨actions, run, stopped, unread, cause, same, member⟩

end MempoolWatch.Pipeline
