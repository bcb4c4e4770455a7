import MempoolWatch.Proofs.Pipeline.Invocations

/-! Reading of the feed. The items that the loop has read come before those it has
not, and every hash among them has one invocation, in the same order. -/
namespace MempoolWatch.Pipeline

variable {σ : Type} {setup : Setup}

/-- The feed is what was read and what was not, and the hashes of the invocations are
those that were read. -/
def State.Reads (setup : Setup) (state : State σ) : Prop :=
  ∃ items, setup.feed = items ++ state.unread ∧ state.hashes = items.filterMap Except.toOption

theorem State.reads_start (ledger : Ledger σ) : (State.start setup ledger).Reads setup :=
  ⟨[], rfl, rfl⟩

variable [Report.Sink σ] {state next : State σ} {action : Action}

theorem Transition.hashes_cases (case : Transition setup state action next) :
    (next.hashes = state.hashes ∧ next.unread = state.unread) ∨
      (∃ hash, next.hashes = state.hashes ++ [hash] ∧ state.unread = .ok hash :: next.unread) ∨
      (∃ cause, next.hashes = state.hashes ∧ state.unread = .error cause :: next.unread) := by
  cases case with
  | advance | signal | interruptListening | interruptDraining | acquire | readEnd
  | expire | settleDraining | settleAborting | record | finish => exact Or.inl ⟨rfl, rfl⟩
  | readHash listening quiet unread =>
    exact Or.inr (Or.inl ⟨_, by simp only [State.hashes, List.map_append]; rfl, unread⟩)
  | readFault listening quiet unread => exact Or.inr (Or.inr ⟨_, rfl, unread⟩)
  | join split | fetch split | analyze split | crash split | deliver split | abort split =>
    refine Or.inl ⟨?_, rfl⟩
    simp only [State.hashes, split, List.map_append, List.map_cons, Invocation.atStage_hash,
      Invocation.noticed_hash]

theorem Transition.reads (case : Transition setup state action next)
    (reads : state.Reads setup) : next.Reads setup := by
  obtain ⟨items, feed, hashes⟩ := reads
  obtain ⟨same, unread⟩ | ⟨hash, added, unread⟩ | ⟨cause, same, unread⟩ := case.hashes_cases
  · exact ⟨items, by rw [feed, unread], by rw [same, hashes]⟩
  · refine ⟨items ++ [.ok hash], ?_, ?_⟩
    · rw [feed, unread, List.append_assoc, List.singleton_append]
    · rw [added, hashes, List.filterMap_append]
      rfl
  · refine ⟨items ++ [.error cause], ?_, ?_⟩
    · rw [feed, unread, List.append_assoc, List.singleton_append]
    · rw [same, hashes, List.filterMap_append]
      exact (List.append_nil _).symm

theorem Reaches.reads {ledger : Ledger σ} {actions : List Action}
    (run : Reaches setup (.start setup ledger) actions state) : state.Reads setup :=
  run.invariant Transition.reads (State.reads_start ledger)

end MempoolWatch.Pipeline
