import MempoolWatch.Proofs.Classification
import MempoolWatch.Proofs.Detection
import MempoolWatch.Proofs.Pipeline.Statistics

/-! Conservation of the counters of a run. Every event counts for an amount in which the
relations between the counters hold, and sums keep them, so that they hold after any events.
Each analysed transaction is counted once for each of its tags, or as unknown. -/
namespace MempoolWatch

theorem TagSet.size_eq (tags : TagSet) : tags.size = tags.ethTransfer.toNat + tags.swap.toNat +
    tags.liquidation.toNat + tags.liquidityOp.toNat := by
  obtain ⟨eth, swap, liquidation, liquidity⟩ := tags
  cases eth <;> cases swap <;> cases liquidation <;> cases liquidity <;> rfl

theorem TagSet.isEmpty_toNat (tags : TagSet) : tags.isEmpty.toNat = 1 - tags.size := by
  unfold isEmpty size
  cases tags.toList with
  | nil => rfl
  | cons tag rest => simp

theorem TagSet.contains_toNat_le_size (tags : TagSet) (tag : Tag) :
    (tags.contains tag).toNat ≤ tags.size := by
  rw [tags.size_eq]
  cases tag <;> simp only [contains] <;> omega

namespace Statistics

theorem add_def (a b : Statistics) : a + b = a.add b := rfl

/-- The transactions with a tag. -/
def tagged (stats : Statistics) : Tag → Nat
  | .ethTransfer => stats.ethTransfers
  | .swap => stats.swaps
  | .liquidation => stats.liquidations
  | .liquidityOp => stats.liquidityOps

/-- The tags of all transactions, counted one by one. -/
def tagCount (stats : Statistics) : Nat :=
  stats.ethTransfers + stats.swaps + stats.liquidations + stats.liquidityOps

theorem tagged_add (a b : Statistics) (tag : Tag) :
    (a + b).tagged tag = a.tagged tag + b.tagged tag := by
  cases tag <;> rfl

theorem tagCount_add (a b : Statistics) : (a + b).tagCount = a.tagCount + b.tagCount := by
  simp only [tagCount, add_def, add]
  omega

theorem tagged_ofReport (report : TxReport) (tag : Tag) :
    (ofReport report).tagged tag = (report.classified.tags.contains tag).toNat := by
  cases tag <;> rfl

theorem tagCount_ofReport (report : TxReport) :
    (ofReport report).tagCount = report.classified.tags.size :=
  report.classified.tags.size_eq.symm

/-- What holds between the counters after any events. -/
structure Conserved (stats : Statistics) : Prop where
  notifications : stats.notifications = stats.analyzed + stats.notFound + stats.analysisErrors
  withOpportunities_le_analyzed : stats.withOpportunities ≤ stats.analyzed
  withOpportunities_le_opportunities : stats.withOpportunities ≤ stats.opportunities
  withOpportunities_eq_zero_iff : stats.withOpportunities = 0 ↔ stats.opportunities = 0
  tagged_le : ∀ tag, stats.tagged tag + stats.unknown ≤ stats.analyzed
  analyzed_le : stats.analyzed ≤ stats.unknown + stats.tagCount

theorem Conserved.add {a b : Statistics} (first : a.Conserved) (second : b.Conserved) :
    (a + b).Conserved := by
  constructor
  · have one := first.notifications
    have two := second.notifications
    simp only [add_def, Statistics.add]
    omega
  · exact Nat.add_le_add first.withOpportunities_le_analyzed second.withOpportunities_le_analyzed
  · exact Nat.add_le_add first.withOpportunities_le_opportunities
      second.withOpportunities_le_opportunities
  · simp only [add_def, Statistics.add, Nat.add_eq_zero_iff, first.withOpportunities_eq_zero_iff,
      second.withOpportunities_eq_zero_iff]
  · intro tag
    have one := first.tagged_le tag
    have two := second.tagged_le tag
    rw [tagged_add]
    simp only [add_def, Statistics.add]
    omega
  · have one := first.analyzed_le
    have two := second.analyzed_le
    rw [tagCount_add]
    simp only [add_def, Statistics.add]
    omega

theorem conserved_ofReport (report : TxReport) : (ofReport report).Conserved := by
  have unknown := report.classified.tags.isEmpty_toNat
  constructor
  · rfl
  · exact Bool.toNat_le _
  · simp only [ofReport]
    cases report.opportunities <;> simp
  · simp only [ofReport]
    cases report.opportunities <;> simp
  · intro tag
    have tagged := report.classified.tags.contains_toNat_le_size tag
    have single := Bool.toNat_le (report.classified.tags.contains tag)
    rw [tagged_ofReport]
    simp only [ofReport]
    omega
  · rw [tagCount_ofReport]
    simp only [ofReport]
    omega

theorem conserved_ofEvent (event : Event) : (ofEvent event).Conserved := by
  cases event with
  | analyzed report => exact conserved_ofReport report
  | notFound hash | failed hash reason =>
    refine ⟨rfl, Nat.le_refl 0, Nat.le_refl 0, Iff.rfl, ?_, Nat.zero_le _⟩
    intro tag
    cases tag <;> exact Nat.le_refl 0

theorem Conserved.record {stats : Statistics} (conserved : stats.Conserved) (event : Event) :
    (stats.record event).Conserved :=
  conserved.add (conserved_ofEvent event)

theorem conserved_start : Conserved {} := by
  refine ⟨rfl, Nat.le_refl 0, Nat.le_refl 0, Iff.rfl, ?_, Nat.le_refl 0⟩
  intro tag
  cases tag <;> exact Nat.le_refl 0

theorem Conserved.foldl {stats : Statistics} (conserved : stats.Conserved) (events : List Event) :
    (events.foldl Statistics.record stats).Conserved := by
  induction events generalizing stats with
  | nil => exact conserved
  | cons event rest ih => exact ih (conserved.record event)

/-- Every transaction has exactly one tag or is unknown. -/
def Exclusive (stats : Statistics) : Prop :=
  stats.analyzed = stats.unknown + stats.tagCount

theorem exclusive_ofEvent {event : Event}
    (single : ∀ report, event = .analyzed report → report.classified.tags.size ≤ 1) :
    (ofEvent event).Exclusive := by
  cases event with
  | analyzed report =>
    have most := single report rfl
    have unknown := report.classified.tags.isEmpty_toNat
    have tags := tagCount_ofReport report
    show 1 = report.classified.tags.isEmpty.toNat + (ofReport report).tagCount
    omega
  | notFound hash | failed hash reason => rfl

theorem Exclusive.add {a b : Statistics} (first : a.Exclusive) (second : b.Exclusive) :
    (a + b).Exclusive := by
  unfold Exclusive at first second ⊢
  rw [tagCount_add]
  simp only [add_def, Statistics.add]
  omega

theorem Exclusive.foldl {events : List Event} {stats : Statistics} (exclusive : stats.Exclusive)
    (single : ∀ report, .analyzed report ∈ events → report.classified.tags.size ≤ 1) :
    (events.foldl Statistics.record stats).Exclusive := by
  induction events generalizing stats with
  | nil => exact exclusive
  | cons event rest ih =>
    apply ih
    · apply exclusive.add
      apply exclusive_ofEvent
      intro report same
      exact single report (by simp [same])
    · intro report member
      exact single report (List.mem_cons_of_mem event member)

def counters : List (Statistics → Nat) :=
  [notifications, analyzed, notFound, analysisErrors, detectorErrors, ethTransfers, swaps,
    liquidations, liquidityOps, unknown, opportunities, withOpportunities]

theorem counter_le_add {counter : Statistics → Nat} (member : counter ∈ counters)
    (a b : Statistics) : counter a ≤ counter (a + b) := by
  simp only [counters, List.mem_cons, List.not_mem_nil, or_false] at member
  rcases member with rfl | rfl | rfl | rfl | rfl | rfl | rfl | rfl | rfl | rfl | rfl | rfl <;>
    exact Nat.le_add_right _ _

theorem counter_le_foldl {counter : Statistics → Nat} (member : counter ∈ counters)
    (stats : Statistics) (events : List Event) : counter stats ≤ counter (events.foldl record stats) := by
  rw [foldl_record]
  exact counter_le_add member _ _

end Statistics

variable {σ : Type} [Report.Sink σ]

/-- Whatever events a fresh ledger records, each is an analysis, a miss or an error; transactions
with opportunities are analysed ones, no more than their opportunities, and none exactly when there
are none; a transaction is unknown or counted for each of its tags, and no counter ever goes
down. With the standard entries alone every transaction has at most one tag, so that the analysed
ones are exactly those counted for a tag and the unknown ones. -/
theorem counters_conserved (reporter : Report.Reporter σ) (entries : List (TimeOfDay × Event)) :
    let stats := ((Ledger.new reporter).recordAll entries).stats
    stats.notifications = stats.analyzed + stats.notFound + stats.analysisErrors ∧
    stats.withOpportunities ≤ stats.analyzed ∧ stats.withOpportunities ≤ stats.opportunities ∧
    (stats.withOpportunities = 0 ↔ stats.opportunities = 0) ∧
    (∀ tag, stats.tagged tag + stats.unknown ≤ stats.analyzed) ∧
    stats.analyzed ≤ stats.unknown +
      (stats.ethTransfers + stats.swaps + stats.liquidations + stats.liquidityOps) ∧
    (∀ earlier later, entries = earlier ++ later → ∀ counter ∈ Statistics.counters,
      counter ((Ledger.new reporter).recordAll earlier).stats ≤ counter stats) ∧
    (∀ tx, (Tagger.standard.tags tx).size ≤ 1) ∧
    ((∀ time report, (time, .analyzed report) ∈ entries →
        ∃ tx, report.classified = Tagger.standard.classify tx) →
      stats.analyzed = stats.unknown +
        (stats.ethTransfers + stats.swaps + stats.liquidations + stats.liquidityOps)) := by
  intro stats
  have counted : stats = (entries.map Prod.snd).foldl Statistics.record {} :=
    Ledger.stats_recordAll _ entries
  have conserved : stats.Conserved := by
    rw [counted]
    exact Statistics.conserved_start.foldl _
  refine ⟨conserved.notifications, conserved.withOpportunities_le_analyzed,
    conserved.withOpportunities_le_opportunities, conserved.withOpportunities_eq_zero_iff,
    conserved.tagged_le, conserved.analyzed_le, ?_, Tagger.size_standard_tags_le_one, ?_⟩
  · rintro earlier later rfl counter member
    rw [counted, List.map_append, List.foldl_append, Ledger.stats_recordAll]
    exact Statistics.counter_le_foldl member _ _
  · intro standard
    have start : Statistics.Exclusive {} := rfl
    rw [counted]
    apply start.foldl
    intro report member
    obtain ⟨⟨time, event⟩, inside, rfl⟩ := List.mem_map.mp member
    obtain ⟨tx, classified⟩ := standard time report inside
    rw [classified]
    exact Tagger.size_standard_tags_le_one tx

/-- A transfer, a call that no entry knows, and a transaction that is gone. -/
def threeEvents : List (TimeOfDay × Event) :=
  let report (tx : Transaction) : TxReport := ⟨Tagger.standard.classify tx, [], 0⟩
  [(⟨0, 0, 0, 0⟩, .analyzed (report { Params.unknownCall with input := [] })),
    (⟨0, 0, 0, 0⟩, .analyzed (report Params.unknownCall)),
    (⟨0, 0, 0, 0⟩, .notFound (.fill 32 1))]

theorem counters_conserved_of_threeEvents :
    let stats := ((Ledger.new Pipeline.freshTranscript).recordAll threeEvents).stats
    (∀ time report, (time, .analyzed report) ∈ threeEvents →
      ∃ tx, report.classified = Tagger.standard.classify tx) ∧
    stats = { notifications := 3, analyzed := 2, notFound := 1, ethTransfers := 1, unknown := 1 } ∧
    stats.analyzed = stats.unknown +
      (stats.ethTransfers + stats.swaps + stats.liquidations + stats.liquidityOps) := by
  have standard : ∀ time report, (time, .analyzed report) ∈ threeEvents →
      ∃ tx, report.classified = Tagger.standard.classify tx := by
    intro time report member
    simp only [threeEvents, List.mem_cons, Prod.mk.injEq, Event.analyzed.injEq, reduceCtorEq,
      and_false, List.not_mem_nil, or_false] at member
    rcases member with ⟨_, rfl⟩ | ⟨_, rfl⟩ <;> exact ⟨_, rfl⟩
  obtain ⟨_, _, _, _, _, _, _, _, equal⟩ := counters_conserved Pipeline.freshTranscript threeEvents
  exact ⟨standard, by decide +kernel, equal standard⟩

end MempoolWatch
