import Mathlib.Data.List.Basic
import MempoolWatch.Proofs.Pipeline.Delivery

/-! The statistics do not depend on the order in which events are recorded, nor on what is
shown of them. So runs over the same hashes that lose none of them agree, however many
invocations and events they allow at a time and in whatever order these take their steps. -/
namespace MempoolWatch

namespace Statistics

protected theorem zero_add (stats : Statistics) : {} + stats = stats := by
  show add {} stats = stats
  simp [add]

protected theorem add_zero (stats : Statistics) : stats + {} = stats := by
  rw [Statistics.add_comm, Statistics.zero_add]

/-- Two events can change places. -/
theorem record_right_comm (stats : Statistics) (first second : Event) :
    (stats.record first).record second = (stats.record second).record first := by
  simp only [record, Statistics.add_assoc]
  rw [Statistics.add_comm (ofEvent first)]

/-- What events count for does not depend on the counters before. -/
theorem foldl_record (stats : Statistics) (events : List Event) :
    events.foldl record stats = stats + events.foldl record {} := by
  induction events generalizing stats with
  | nil => exact stats.add_zero.symm
  | cons event rest ih =>
    calc rest.foldl record (stats.record event)
      _ = stats + ofEvent event + rest.foldl record {} := ih (stats + ofEvent event)
      _ = stats + (ofEvent event + rest.foldl record {}) := Statistics.add_assoc _ _ _
      _ = stats + rest.foldl record (record {} event) := by
        rw [ih (record {} event), record, Statistics.zero_add]

theorem foldl_record_append (first second : List Event) :
    (first ++ second).foldl record {} = first.foldl record {} + second.foldl record {} := by
  rw [List.foldl_append, foldl_record]

theorem foldl_record_perm {first second : List Event} (same : first.Perm second) :
    first.foldl record {} = second.foldl record {} :=
  same.foldl_eq' (fun x _ y _ stats => record_right_comm stats x y) {}

end Statistics

/-- The statistics of a ledger are those of its events, whatever was written about them. -/
theorem Ledger.stats_recordAll {σ : Type} [Report.Sink σ] (base : Ledger σ)
    (entries : List (TimeOfDay × Event)) :
    (base.recordAll entries).stats = (entries.map Prod.snd).foldl Statistics.record base.stats := by
  induction entries generalizing base with
  | nil => rfl
  | cons entry rest ih => exact ih (base.record entry.1 entry.2)

namespace Pipeline

/-- Why listening ended, once it has. -/
def Phase.why? : Phase → Option Termination
  | .acquiring | .listening => none
  | .draining why _ | .aborting why _ | .closing why _ | .returned why _ => some why

variable {σ : Type} {setup : Setup} {state next : State σ} {action : Action}

theorem State.why?_cutShort (why : Termination) : (state.cutShort why).phase.why? = some why := by
  unfold cutShort
  split <;> rfl

/-- The end of the feed is found only behind its last item. -/
def State.ReadsUp (state : State σ) : Prop :=
  state.phase.why? = some .closed → state.unread = []

variable [Report.Sink σ]

theorem Transition.readsUp (case : Transition setup state action next)
    (readsUp : state.ReadsUp) : next.ReadsUp := by
  intro closed
  cases case with
  | advance | signal | join | fetch | analyze | crash | deliver | abort | record =>
    exact readsUp closed
  | interruptListening | acquire | readHash | readFault => cases closed
  | readEnd listening quiet unread => exact unread
  | interruptDraining pending phase =>
    rw [State.why?_cutShort] at closed
    exact readsUp (by rw [phase]; exact closed)
  | expire phase =>
    rw [State.why?_cutShort] at closed
    exact readsUp (by rw [phase]; exact closed)
  | settleDraining phase | settleAborting phase | finish phase =>
    exact readsUp (by rw [phase]; exact closed)

theorem Reaches.readsUp {ledger : Ledger σ} {actions : List Action}
    (run : Reaches setup (.start setup ledger) actions state) : state.ReadsUp :=
  run.invariant Transition.readsUp (by intro closed; cases closed)

/-- A run over a list of hashes that ends with the list, and in which no analysis crashed and
no invocation was aborted. -/
structure CompleteRun (setup : Setup) (reporter : Report.Reporter σ) (hashes : List Hash)
    (state : State σ) : Prop where
  feed : setup.feed = hashes.map .ok
  run : ∃ actions, Reaches setup (.start setup (.new reporter)) actions state
  returned : ∃ aborted, state.phase = .returned .closed aborted
  noneCrashed : state.endedBy .crashed = []
  noneAborted : state.endedBy .aborted = []

namespace CompleteRun

variable {reporter : Report.Reporter σ} {hashes : List Hash}

theorem hashes_eq (complete : CompleteRun setup reporter hashes state) :
    state.hashes = hashes := by
  obtain ⟨actions, run⟩ := complete.run
  obtain ⟨aborted, returned⟩ := complete.returned
  obtain ⟨items, feed, read⟩ := run.reads
  have unread : state.unread = [] := run.readsUp (by rw [returned]; rfl)
  rw [unread, List.append_nil, complete.feed] at feed
  rw [read, ← feed, List.filterMap_map]
  exact List.filterMap_some

/-- Every invocation delivered the event of its hash. -/
theorem delivered (complete : CompleteRun setup reporter hashes state) {invocation : Invocation}
    (member : invocation ∈ state.invocations) : ∃ event, setup.event? invocation = some event := by
  obtain ⟨actions, run⟩ := complete.run
  obtain ⟨aborted, returned⟩ := complete.returned
  have attended := run.attended
  obtain ⟨ending, stage⟩ := Stage.isEnded_iff.mp
    (attended.ended (by rw [returned]; rfl) member)
  cases ending with
  | delivered => exact (attended.fits invocation member).delivered stage
  | crashed =>
    have crashed := State.mem_endedBy.mpr ⟨member, stage⟩
    rw [complete.noneCrashed] at crashed
    contradiction
  | aborted =>
    have aborted := State.mem_endedBy.mpr ⟨member, stage⟩
    rw [complete.noneAborted] at aborted
    contradiction

theorem event (complete : CompleteRun setup reporter hashes state) {hash : Hash}
    (member : hash ∈ hashes) : ∃ event, (setup.analyze hash).event? = some event := by
  rw [← complete.hashes_eq] at member
  obtain ⟨invocation, inside, rfl⟩ := List.mem_map.mp member
  exact complete.delivered inside

/-- The statistics at the end are those of the events of the hashes in their order. -/
theorem stats_eq (complete : CompleteRun setup reporter hashes state) :
    state.ledger.stats =
      (hashes.filterMap fun hash => (setup.analyze hash).event?).foldl Statistics.record {} := by
  obtain ⟨actions, run⟩ := complete.run
  obtain ⟨aborted, returned⟩ := complete.returned
  have conserves := run.conserves
  have finished : state.phase.isReturned = true := by rw [returned]; rfl
  have settled : state.phase.isSettled = true := by rw [returned]; rfl
  have recorded := conserves.delivered
  rw [conserves.drained finished, List.append_nil] at recorded
  have all := events_perm conserves.attended.fits
    fun _ member => conserves.attended.ended settled member
  have noneAborted : state.invocations.filter (·.stage.isEndedBy .aborted) = [] :=
    complete.noneAborted
  rw [noneAborted, List.filterMap_nil, List.append_nil] at all
  have written := conserves.written
  rw [finished, if_pos rfl] at written
  calc state.ledger.stats
    _ = (state.recorded.map Prod.snd).foldl Statistics.record {} := by
      rw [written]
      exact Ledger.stats_recordAll _ _
    _ = (state.invocations.filterMap setup.event?).foldl Statistics.record {} :=
      Statistics.foldl_record_perm (recorded.trans all.symm)
    _ = (hashes.filterMap fun hash => (setup.analyze hash).event?).foldl Statistics.record {} := by
      rw [← complete.hashes_eq, State.hashes, List.filterMap_map]
      rfl

end CompleteRun

theorem exists_map_some {α β : Type} {f : α → Option β} {inputs : List α}
    (all : ∀ input ∈ inputs, ∃ output, f input = some output) :
    ∃ outputs : List β, inputs.map f = outputs.map some := by
  induction inputs with
  | nil => exact ⟨[], rfl⟩
  | cons input rest ih =>
    rw [List.forall_mem_cons] at all
    obtain ⟨output, first⟩ := all.1
    obtain ⟨outputs, others⟩ := ih all.2
    exact ⟨output :: outputs, by rw [List.map_cons, List.map_cons, first, others]⟩

/-- Recording events in another order, or with another report of them, gives the same
statistics, and events behind others add what they count for by themselves. So two complete
runs over the same hashes with the same answers agree, whatever their settings and the order
of their steps, and their statistics are those of the events of the hashes recorded one after
another. -/
theorem statistics_independent_of_order {ρ : Type} [Report.Sink ρ]
    (reporter : Report.Reporter σ) (reporter' : Report.Reporter ρ) :
    (∀ entries entries' : List (TimeOfDay × Event),
      (entries.map Prod.snd).Perm (entries'.map Prod.snd) →
      ((Ledger.new reporter).recordAll entries).stats =
        ((Ledger.new reporter').recordAll entries').stats) ∧
    (∀ first second : List (TimeOfDay × Event),
      ((Ledger.new reporter).recordAll (first ++ second)).stats =
        ((Ledger.new reporter).recordAll first).stats +
          ((Ledger.new reporter').recordAll second).stats) ∧
    (∀ (setup setup' : Setup) (hashes : List Hash) (state : State σ) (state' : State ρ),
      CompleteRun setup reporter hashes state → CompleteRun setup' reporter' hashes state' →
      (∀ hash ∈ hashes, (setup'.analyze hash).event? = (setup.analyze hash).event?) →
      state'.ledger.stats = state.ledger.stats ∧
      ∃ events, hashes.map (fun hash => (setup.analyze hash).event?) = events.map some ∧
        ∀ entries : List (TimeOfDay × Event), entries.map Prod.snd = events →
          state.ledger.stats = ((Ledger.new reporter').recordAll entries).stats) := by
  refine ⟨?_, ?_, ?_⟩
  · intro entries entries' same
    rw [Ledger.stats_recordAll, Ledger.stats_recordAll]
    exact Statistics.foldl_record_perm same
  · intro first second
    rw [Ledger.stats_recordAll, Ledger.stats_recordAll, Ledger.stats_recordAll, List.map_append]
    exact Statistics.foldl_record_append _ _
  · intro setup setup' hashes state state' complete complete' answers
    refine ⟨?_, ?_⟩
    · rw [complete.stats_eq, complete'.stats_eq, List.filterMap_congr answers]
    · obtain ⟨events, all⟩ := exists_map_some fun hash member => complete.event member
      refine ⟨events, all, ?_⟩
      rintro entries rfl
      rw [complete.stats_eq, Ledger.stats_recordAll]
      have listed := congrArg (List.filterMap id) all
      rw [List.filterMap_map, List.filterMap_map] at listed
      exact congrArg (List.foldl Statistics.record {}) (listed.trans List.filterMap_some)

/-- Three announcements, two of them of a transaction that is gone, with settings of choice. -/
def threeAnswers (settings : Settings) : Setup where
  settings := settings
  analyze := fun hash =>
    if hash = .fill 32 1 then ⟨some (.notFound hash), 0⟩ else ⟨some (.failed hash ""), 0⟩
  feed := [.fill 32 1, .fill 32 2, .fill 32 1].map .ok
  staysOpen := false

/-- The run with given settings when the first hash is answered after some time. -/
def threeAnswersEnd (settings : Settings) (delay : Nat) : State Report.Transcript :=
  (Simulation.complete (threeAnswers settings)
    ⟨[0, 0, 0], [], fun hash => if hash = .fill 32 1 then some delay else some 0⟩ ⟨0, 0, 0, 0⟩
    (.new freshTranscript)).state

theorem three_answers_independent_of_order :
    ∃ state state' : State Report.Transcript,
      CompleteRun (threeAnswers ⟨0, 0, 0⟩) freshTranscript
        [.fill 32 1, .fill 32 2, .fill 32 1] state ∧
      CompleteRun (threeAnswers ⟨64, 1024, 10000⟩) freshTranscript
        [.fill 32 1, .fill 32 2, .fill 32 1] state' ∧
      state'.ledger.stats = state.ledger.stats ∧
      state.ledger.stats = { notifications := 3, notFound := 2, analysisErrors := 1 } := by
  have complete : CompleteRun (threeAnswers ⟨0, 0, 0⟩) freshTranscript
      [.fill 32 1, .fill 32 2, .fill 32 1] (threeAnswersEnd ⟨0, 0, 0⟩ 0) :=
    ⟨rfl, Simulation.complete_reaches _ _ _ _, ⟨0, by decide +kernel⟩,
      List.eq_nil_of_length_eq_zero (by decide +kernel),
      List.eq_nil_of_length_eq_zero (by decide +kernel)⟩
  have complete' : CompleteRun (threeAnswers ⟨64, 1024, 10000⟩) freshTranscript
      [.fill 32 1, .fill 32 2, .fill 32 1] (threeAnswersEnd ⟨64, 1024, 10000⟩ 7) :=
    ⟨rfl, Simulation.complete_reaches _ _ _ _, ⟨0, by decide +kernel⟩,
      List.eq_nil_of_length_eq_zero (by decide +kernel),
      List.eq_nil_of_length_eq_zero (by decide +kernel)⟩
  obtain ⟨_, _, runs⟩ := statistics_independent_of_order freshTranscript freshTranscript
  obtain ⟨same, _⟩ := runs _ _ _ _ _ complete complete' fun _ _ => rfl
  exact ⟨_, _, complete, complete', same, by decide +kernel⟩

end Pipeline

end MempoolWatch
