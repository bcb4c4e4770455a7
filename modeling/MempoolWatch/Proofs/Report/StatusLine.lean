import Mathlib.Data.List.Basic
import MempoolWatch.Proofs.Report.Writing

/-! The line of counters does not mix with other text. What a reporter may have written is given
by the relation `Written`, with one case for each of its operations, and the reports of all runs
are shown to be of that kind. A line of counters that stands is made blank directly before a block
of opportunities or the summary, and at no other time; and the lines of transactions and the line
of counters exclude each other. -/
namespace MempoolWatch

theorem concat_eq_append_cons {α : Type} {front earlier later : List α} {last entry : α}
    (split : front ++ [last] = earlier ++ entry :: later) :
    (front = earlier ∧ last = entry ∧ later = []) ∨
      ∃ rest, front = earlier ++ entry :: rest ∧ later = rest ++ [last] := by
  obtain rfl | ⟨rest, final, rfl⟩ := later.eq_nil_or_concat'
  · obtain ⟨rfl, same⟩ := List.append_inj' split rfl
    exact Or.inl ⟨rfl, List.head_eq_of_cons_eq same, rfl⟩
  · rw [← List.cons_append, ← List.append_assoc] at split
    obtain ⟨rfl, same⟩ := List.append_inj' split rfl
    exact Or.inr ⟨rest, rfl, by rw [List.head_eq_of_cons_eq same]⟩

namespace Report

/-- The entries that are written on lines of their own. -/
def Entry.isApart : Entry → Bool
  | opportunities .. | summary _ => true
  | _ => false

/-- A line of counters was written and was not made blank since. -/
def StatusStands (written : List Entry) : Prop :=
  ∃ earlier stats later, written = earlier ++ .status stats :: later ∧ Entry.blanking ∉ later

/-- The line of counters is made blank where other text is to be written, and only there. -/
structure StatusKeptApart (written : List Entry) : Prop where
  /-- Directly before a block or the summary a line of counters was made blank, if one stood. -/
  cleared : ∀ earlier entry later, written = earlier ++ entry :: later → entry.isApart = true →
    (∃ before stats, earlier = before ++ [.status stats, .blanking]) ∨
      (¬ StatusStands earlier ∧ earlier.getLast? ≠ some .blanking)
  /-- It is made blank directly behind a line of counters and directly before a block or the
  summary. -/
  blanked : ∀ earlier later, written = earlier ++ .blanking :: later →
    (∃ before stats, earlier = before ++ [.status stats]) ∧
      ∃ entry rest, later = entry :: rest ∧ entry.isApart = true

/-- What a reporter may have written. The flag says that it has written the line of counters last. -/
inductive Written (display : Display) : (shown : Bool) → List Entry → Prop
  | nothing : Written display false []
  | transaction {written : List Entry} (all : display.showAll = true) (index : Nat)
      (report : TxReport) (before : Written display false written) :
      Written display false (written ++ [.transaction index report])
  | status {shown : Bool} {written : List Entry} (live : display.isLive = true)
      (stats : Statistics) (before : Written display shown written) :
      Written display true (written ++ [.status stats])
  | apart {written : List Entry} {entry : Entry} (isApart : entry.isApart = true)
      (before : Written display false written) : Written display false (written ++ [entry])
  | clearing {written : List Entry} {entry : Entry} (isApart : entry.isApart = true)
      (before : Written display true written) :
      Written display false (written ++ [.blanking, entry])

theorem not_statusStands_nil : ¬ StatusStands [] := by
  rintro ⟨earlier, stats, later, split, _⟩
  exact absurd split.symm (List.append_ne_nil_of_right_ne_nil _ (List.cons_ne_nil _ _))

theorem statusStands_concat {written : List Entry} {last : Entry} :
    StatusStands (written ++ [last]) ↔
      (∃ stats, last = .status stats) ∨ (last ≠ .blanking ∧ StatusStands written) := by
  constructor
  · rintro ⟨earlier, stats, later, split, unblanked⟩
    obtain ⟨_, same, _⟩ | ⟨rest, front, rfl⟩ := concat_eq_append_cons split
    · exact Or.inl ⟨stats, same⟩
    · rw [List.mem_append, List.mem_singleton, not_or] at unblanked
      exact Or.inr ⟨Ne.symm unblanked.2, earlier, stats, rest, front, unblanked.1⟩
  · rintro (⟨stats, rfl⟩ | ⟨other, earlier, stats, rest, rfl, unblanked⟩)
    · exact ⟨written, stats, [], rfl, List.not_mem_nil⟩
    · refine ⟨earlier, stats, rest ++ [last], by rw [List.append_assoc, List.cons_append], ?_⟩
      rw [List.mem_append, List.mem_singleton, not_or]
      exact ⟨unblanked, Ne.symm other⟩

theorem Entry.ne_of_isApart {entry : Entry} (isApart : entry.isApart = true) :
    entry ≠ .blanking ∧ ∀ stats, entry ≠ .status stats := by
  constructor
  · rintro rfl
    cases isApart
  · rintro stats rfl
    cases isApart

namespace Written

variable {display : Display} {shown : Bool} {written : List Entry}

theorem isLive (shows : Written display true written) : display.isLive = true := by
  cases shows with
  | status live => exact live

theorem shown_of_showAll (valid : Written display shown written)
    (all : display.showAll = true) : shown = false := by
  cases shown with
  | false => rfl
  | true =>
    have live := valid.isLive
    rw [Display.isLive, all] at live
    cases live

theorem ends_with_status (shows : Written display true written) :
    ∃ before stats, written = before ++ [.status stats] := by
  cases shows with
  | @status _ before _ stats => exact ⟨before, stats, rfl⟩

theorem shown_iff (valid : Written display shown written) :
    shown = true ↔ ∃ stats, written.getLast? = some (.status stats) := by
  cases valid with
  | nothing | transaction | status => simp
  | apart isApart | clearing isApart => simp [(Entry.ne_of_isApart isApart).2]

theorem getLast?_ne_blanking (valid : Written display shown written) :
    written.getLast? ≠ some .blanking := by
  cases valid with
  | nothing | transaction | status => simp
  | apart isApart | clearing isApart => simp [(Entry.ne_of_isApart isApart).1]

theorem statusStands_iff (valid : Written display shown written) :
    StatusStands written ↔ shown = true := by
  induction valid with
  | nothing => exact iff_of_false not_statusStands_nil nofun
  | transaction all index report before ih => simp [statusStands_concat, ih]
  | status live stats before ih => simp [statusStands_concat]
  | apart isApart before ih =>
    have other := Entry.ne_of_isApart isApart
    simp [statusStands_concat, other, ih]
  | clearing isApart before ih =>
    have other := Entry.ne_of_isApart isApart
    rw [List.append_cons, statusStands_concat, statusStands_concat]
    simp [other]

end Written

namespace StatusKeptApart

variable {written : List Entry} {last : Entry}

theorem start : StatusKeptApart [] := by
  constructor
  · intro earlier entry later split
    exact absurd split.symm (List.append_ne_nil_of_right_ne_nil _ (List.cons_ne_nil _ _))
  · intro earlier later split
    exact absurd split.symm (List.append_ne_nil_of_right_ne_nil _ (List.cons_ne_nil _ _))

theorem concat (kept : StatusKeptApart written) (other : last ≠ .blanking)
    (clear : last.isApart = true →
      ¬ StatusStands written ∧ written.getLast? ≠ some .blanking) :
    StatusKeptApart (written ++ [last]) := by
  constructor
  · intro earlier entry later split isApart
    obtain ⟨rfl, rfl, _⟩ | ⟨rest, front, _⟩ := concat_eq_append_cons split
    · exact Or.inr (clear isApart)
    · exact kept.cleared earlier entry rest front isApart
  · intro earlier later split
    obtain ⟨_, same, _⟩ | ⟨rest, front, rfl⟩ := concat_eq_append_cons split
    · exact absurd same other
    · obtain ⟨status, entry, behind, rfl, isApart⟩ := kept.blanked earlier rest front
      exact ⟨status, entry, _, rfl, isApart⟩

theorem clearing (kept : StatusKeptApart written)
    (status : ∃ before stats, written = before ++ [.status stats]) (isApart : last.isApart = true) :
    StatusKeptApart (written ++ [.blanking, last]) := by
  rw [List.append_cons]
  constructor
  · intro earlier entry later split isApart
    obtain ⟨rfl, _⟩ | ⟨rest, front, _⟩ := concat_eq_append_cons split
    · obtain ⟨before, stats, rfl⟩ := status
      exact Or.inl ⟨before, stats, List.append_assoc _ _ _⟩
    · obtain ⟨_, rfl, _⟩ | ⟨inner, within, _⟩ := concat_eq_append_cons front
      · cases isApart
      · exact kept.cleared earlier entry inner within isApart
  · intro earlier later split
    obtain ⟨_, same, _⟩ | ⟨rest, front, rfl⟩ := concat_eq_append_cons split
    · exact absurd same (Entry.ne_of_isApart isApart).1
    · obtain ⟨rfl, _, rfl⟩ | ⟨inner, within, rfl⟩ := concat_eq_append_cons front
      · exact ⟨status, last, [], rfl, isApart⟩
      · obtain ⟨status, entry, behind, rfl, isApart⟩ := kept.blanked earlier inner within
        exact ⟨status, entry, _, rfl, isApart⟩

end StatusKeptApart

namespace Written

variable {display : Display} {shown : Bool} {written : List Entry}

theorem keptApart (valid : Written display shown written) : StatusKeptApart written := by
  induction valid with
  | nothing => exact .start
  | transaction all index report before ih => exact ih.concat nofun nofun
  | status live stats before ih => exact ih.concat nofun nofun
  | apart isApart before ih =>
    refine ih.concat (Entry.ne_of_isApart isApart).1 fun _ => ⟨?_, before.getLast?_ne_blanking⟩
    rw [before.statusStands_iff]
    decide
  | clearing isApart before ih => exact ih.clearing before.ends_with_status isApart

theorem transaction_not_mem (valid : Written display shown written)
    (some : display.showAll = false) (index : Nat) (report : TxReport) :
    Entry.transaction index report ∉ written := by
  induction valid with
  | nothing => exact List.not_mem_nil
  | transaction all =>
    rw [some] at all
    cases all
  | status live stats before ih => simpa using ih
  | @apart _ entry isApart before ih =>
    have other : Entry.transaction index report ≠ entry := by
      rintro rfl
      cases isApart
    simpa [other] using ih
  | @clearing _ entry isApart before ih =>
    have other : Entry.transaction index report ≠ entry := by
      rintro rfl
      cases isApart
    simpa [other] using ih

/-- Without the line of counters there is nothing to make blank. -/
theorem status_not_mem (valid : Written display shown written) (dead : display.isLive = false) :
    (∀ stats, Entry.status stats ∉ written) ∧ Entry.blanking ∉ written := by
  induction valid with
  | nothing => exact ⟨fun _ => List.not_mem_nil, List.not_mem_nil⟩
  | transaction all index report before ih => simpa using ih
  | status live =>
    rw [dead] at live
    cases live
  | apart isApart before ih =>
    obtain ⟨blanking, status⟩ := Entry.ne_of_isApart isApart
    simpa [blanking.symm, fun stats => (status stats).symm] using ih
  | clearing isApart before => cases before.isLive.symm.trans dead

end Written

/-- The reporter has written a report so far. -/
def Reporter.Valid (reporter : Reporter Transcript) : Prop :=
  Written reporter.display reporter.statusShown reporter.sink

namespace Reporter.Valid

variable {reporter : Reporter Transcript}

theorem transaction (valid : reporter.Valid) (index : Nat) (report : TxReport) :
    (reporter.transaction index report).1.Valid := by
  rw [transaction_transcript]
  unfold Valid
  dsimp only
  split
  · next all =>
    have none := Written.shown_of_showAll valid all
    rw [none]
    refine .transaction all index report ?_
    rw [← none]
    exact valid
  · rw [List.append_nil]
    exact valid

theorem progress (valid : reporter.Valid) (stats : Statistics) :
    (reporter.progress stats).1.Valid := by
  rw [progress_transcript]
  split
  · next live => exact .status live stats valid
  · exact valid

theorem writeApart (valid : reporter.Valid) {entry : Entry} (isApart : entry.isApart = true) :
    (reporter.writeApart entry).1.Valid := by
  rw [writeApart_transcript]
  unfold Valid at valid ⊢
  dsimp only
  cases shown : reporter.statusShown with
  | true =>
    rw [shown] at valid
    exact .clearing isApart valid
  | false =>
    rw [shown] at valid
    exact .apart isApart valid

end Reporter.Valid

end Report

namespace Ledger

open Report

variable {ledger : Ledger Transcript}

theorem valid_write {reporter : Reporter Transcript} (valid : reporter.Valid) (stats : Statistics)
    (time : TimeOfDay) (report : TxReport) : (write stats time report reporter).Valid := by
  unfold write
  dsimp only
  split
  · exact valid.transaction _ _
  · exact (valid.transaction _ _).writeApart rfl

theorem valid_record (valid : ledger.reporter.Valid) (time : TimeOfDay) (event : Event) :
    (ledger.record time event).reporter.Valid := by
  cases event with
  | analyzed report => exact (valid_write valid _ _ _).progress _
  | notFound hash | failed hash reason => exact valid.progress _

theorem valid_recordAll (valid : ledger.reporter.Valid) (events : List (TimeOfDay × Event)) :
    (ledger.recordAll events).reporter.Valid := by
  induction events generalizing ledger with
  | nil => exact valid
  | cons entry rest ih => exact ih (valid_record valid entry.1 entry.2)

theorem valid_transcribed (display : Display) (events : List (TimeOfDay × Event)) :
    Written display (transcribed display events).reporter.statusShown
      (transcribed display events).reporter.sink := by
  have fresh : (new (.new display ([] : Transcript))).reporter.Valid := Written.nothing
  have recorded := valid_recordAll fresh events
  unfold Reporter.Valid at recorded
  rw [display_recordAll] at recorded
  exact recorded

theorem valid_finish (valid : ledger.reporter.Valid) : ledger.finish.reporter.Valid :=
  valid.writeApart rfl

/-- The report of a run is one that a reporter may have written. -/
theorem valid_reportOf (display : Display) (events : List (TimeOfDay × Event)) :
    Written display (transcribed display events).finish.reporter.statusShown
      (reportOf display events) := by
  have shows : (transcribed display events).reporter.display = display :=
    display_recordAll _ events
  have valid : (transcribed display events).reporter.Valid := by
    unfold Reporter.Valid
    rw [shows]
    exact valid_transcribed display events
  have finished := valid_finish valid
  unfold Reporter.Valid at finished
  rw [display_finish, shows] at finished
  exact finished

/-- Whatever events a fresh ledger records before it is finished, and whatever sink that never
fails it writes to: a line of counters that stands when a block of opportunities or the summary is
to be written is made blank directly before, and it is made blank at no other time; lines of
transactions and of counters do not occur in one report; with all transactions shown or without
the line of counters neither that line nor the blanking is written. The flag of the reporter says
after every event and at the end whether the line of counters was written last. -/
theorem status_text_kept_apart {σ : Type} [Sink σ] {sink : σ} (unfailing : Sink.Unfailing sink)
    (display : Display) (events : List (TimeOfDay × Event)) :
    let recorded := (new (.new display sink)).recordAll events
    let written := (transcribed display events).reporter.sink
    let report := reportOf display events
    recorded.reporter.sink = Sink.putAll sink written ∧
    recorded.finish.reporter.sink = Sink.putAll sink report ∧
    Entry.blanking.text = "\r" ++ String.ofList (List.replicate 100 ' ') ++ "\r" ∧
    StatusKeptApart report ∧
    ¬ ((∃ index found, .transaction index found ∈ report) ∧ ∃ stats, .status stats ∈ report) ∧
    (display.showAll = true ∨ display.liveStatus = false →
      (∀ stats, .status stats ∉ report) ∧ .blanking ∉ report) ∧
    (recorded.reporter.statusShown = true ↔ ∃ stats, written.getLast? = some (.status stats)) ∧
    (recorded.finish.reporter.statusShown = true ↔
      ∃ stats, report.getLast? = some (.status stats)) := by
  intro recorded written report
  have delivered : recorded = (transcribed display events).deliver sink :=
    recordAll_new unfailing display events
  have valid := valid_transcribed display events
  have finished := valid_reportOf display events
  have dead (off : display.showAll = true ∨ display.liveStatus = false) :
      (∀ stats, .status stats ∉ report) ∧ .blanking ∉ report := by
    apply finished.status_not_mem
    obtain all | hidden := off
    · simp [Display.isLive, all]
    · simp [Display.isLive, hidden]
  refine ⟨?_, ?_, rfl, finished.keptApart, ?_, dead, ?_, ?_⟩
  · rw [delivered]
    rfl
  · rw [delivered, finish_deliver unfailing]
    rfl
  · rintro ⟨⟨index, found, line⟩, stats, status⟩
    cases all : display.showAll with
    | true => exact (dead (Or.inl all)).1 stats status
    | false => exact finished.transaction_not_mem all index found line
  · rw [delivered]
    exact valid.shown_iff
  · rw [delivered, finish_deliver unfailing]
    exact finished.shown_iff

/-- A swap that carries its value, with the given findings. -/
def swapReport (opportunities : List Opportunity) : TxReport where
  classified := Tagger.standard.classify {
    hash := .fill 32 7
    sender := .fill 20 1
    recipient := some (.fill 20 2)
    value := 1
    input := [0x7f, 0xf3, 0x6a, 0xb5]
    gas := 21000
    gasPrice := none }
  opportunities := opportunities
  detectorErrors := 0

def smallProfit : Opportunity where
  txHash := .fill 32 7
  kind := .backRun
  netProfit := 0.25
  grossEstimate := 0.5
  gasCost := 0.25
  confidence := 0.5
  details := []

def noon : TimeOfDay := ⟨12, 0, 0, 0⟩

/-- A transaction that is gone, and then one with an opportunity. -/
def goneThenFound : List (TimeOfDay × Event) :=
  [(noon, .notFound (.fill 32 1)), (noon, .analyzed (swapReport [smallProfit]))]

theorem status_of_goneThenFound_kept_apart :
    let gone : Statistics := { notifications := 1, notFound := 1 }
    let found : Statistics :=
      { gone with notifications := 2, analyzed := 1, swaps := 1, opportunities := 1,
                  withOpportunities := 1 }
    let report := [.status gone, .blanking,
      .opportunities 1 noon 2000.0 (swapReport [smallProfit]), .status found, .blanking,
      .summary found]
    Sink.Unfailing (Output.empty none) ∧ StatusKeptApart report ∧
      ((new (.new {} (Output.empty none))).recordAll goneThenFound).finish.reporter.sink =
        Sink.putAll (Output.empty none) report ∧
      ((new (.new {} (Output.empty none))).recordAll goneThenFound).reporter.statusShown = true := by
  intro gone found report
  have unfailing : Sink.Unfailing (Output.empty none) := Output.unfailing_unlimited []
  have written : reportOf {} goneThenFound = report := rfl
  obtain ⟨_, sink, _, kept, _, _, shown, _⟩ := status_text_kept_apart unfailing {} goneThenFound
  rw [written] at sink kept
  exact ⟨unfailing, kept, sink, shown.mpr ⟨found, rfl⟩⟩

end Ledger

end MempoolWatch
