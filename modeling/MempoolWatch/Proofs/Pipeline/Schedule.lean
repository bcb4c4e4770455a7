import MempoolWatch.Pipeline.Simulation

/-! The simulation is one of the orders in which the steps of a run can follow each
other: it takes possible steps only, so that what holds of every run holds of it. -/
namespace MempoolWatch.Pipeline.Simulation

variable {σ : Type} [Report.Sink σ] {setup : Setup} {time : TimeOfDay}

theorem next?_steps {simulation later : Simulation σ}
    (next : simulation.next? setup time = some later) :
    ∃ action, simulation.state.step? setup action = some later.state := by
  simp only [next?, Option.bind_eq_bind, Option.bind_eq_some_iff] at next
  obtain ⟨⟨action, loopTurn⟩, _, state, step, produced⟩ := next
  cases produced
  exact ⟨action, step⟩

theorem run_reaches (fuel : Nat) (simulation : Simulation σ) :
    ∃ actions, Reaches setup simulation.state actions (run setup time fuel simulation).state := by
  induction fuel generalizing simulation with
  | zero => exact ⟨[], .refl _⟩
  | succ fuel ih =>
    rw [run]
    split
    · next later next =>
      obtain ⟨action, step⟩ := next?_steps next
      obtain ⟨actions, rest⟩ := ih later
      exact ⟨action :: actions, .next step rest⟩
    · exact ⟨[], .refl _⟩

/-- The state in which the simulation ends is reached from the start of the run. -/
theorem complete_reaches (setup : Setup) (timing : Timing) (time : TimeOfDay) (ledger : Ledger σ) :
    ∃ actions, Reaches setup (.start setup ledger) actions
      (complete setup timing time ledger).state :=
  run_reaches (enough setup timing) (start setup timing ledger)

end MempoolWatch.Pipeline.Simulation
