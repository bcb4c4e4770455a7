import MempoolWatch.Ledger

/-! What a ledger writes, as a list of entries. Of its sink a report sees only whether the entries
were taken, so that every sink that takes them all receives the entries of the transcript, in the
same order; an output of bytes without a limit then holds their texts. -/
namespace MempoolWatch

namespace Report

variable {σ : Type} [Sink σ]

namespace Sink

/-- The sink after the entries were given to it. -/
def putAll (sink : σ) (entries : List Entry) : σ :=
  entries.foldl (fun sink entry => (write sink entry).1) sink

/-- The sink takes every entry as a whole, whatever it has taken before. -/
def Unfailing (sink : σ) : Prop :=
  ∀ earlier entry, (write (putAll sink earlier) entry).2 = true

theorem write_putAll {sink : σ} (unfailing : Unfailing sink) (earlier : List Entry)
    (entry : Entry) :
    write (putAll sink earlier) entry = (putAll sink (earlier ++ [entry]), true) := by
  apply Prod.ext
  · rw [putAll, putAll, List.foldl_append, List.foldl_cons, List.foldl_nil]
  · exact unfailing earlier entry

end Sink

namespace Output

theorem putAll_unlimited (written : Bytes) (entries : List Entry) :
    Sink.putAll (Output.mk written none) entries =
      ⟨written ++ entries.flatMap (Utf8.encode ·.text), none⟩ := by
  induction entries generalizing written with
  | nil => rw [List.flatMap_nil, List.append_nil]; rfl
  | cons entry rest ih =>
    rw [List.flatMap_cons, ← List.append_assoc]
    exact ih (written ++ Utf8.encode entry.text)

theorem unfailing_unlimited (written : Bytes) : Sink.Unfailing (Output.mk written none) := by
  intro earlier entry
  rw [putAll_unlimited]
  rfl

end Output

namespace Reporter

/-- The same reporter, with its transcript given to a sink. -/
def deliver (sink : σ) (reporter : Reporter Transcript) : Reporter σ :=
  ⟨reporter.display, reporter.statusShown, Sink.putAll sink reporter.sink⟩

@[simp] theorem display_deliver (sink : σ) (reporter : Reporter Transcript) :
    (reporter.deliver sink).display = reporter.display := rfl

@[simp] theorem statusShown_deliver (sink : σ) (reporter : Reporter Transcript) :
    (reporter.deliver sink).statusShown = reporter.statusShown := rfl

variable {sink : σ} (unfailing : Sink.Unfailing sink) (reporter : Reporter Transcript)
include unfailing

theorem write_deliver (entry : Entry) :
    (reporter.deliver sink).write entry = ((reporter.write entry).1.deliver sink, true) := by
  unfold write deliver
  rw [Sink.write_putAll unfailing]
  rfl

theorem clear_deliver :
    (reporter.deliver sink).clear = (reporter.clear.1.deliver sink, true) := by
  unfold clear
  rw [statusShown_deliver]
  split
  · exact write_deliver unfailing { reporter with statusShown := false } .blanking
  · rfl

theorem writeApart_deliver (entry : Entry) :
    (reporter.deliver sink).writeApart entry = ((reporter.writeApart entry).1.deliver sink, true) := by
  have taken : reporter.clear.2 = true := by
    unfold clear
    split <;> rfl
  unfold writeApart
  simp only [clear_deliver unfailing, taken, if_true]
  exact write_deliver unfailing reporter.clear.1 entry

theorem transaction_deliver (index : Nat) (report : TxReport) :
    (reporter.deliver sink).transaction index report =
      ((reporter.transaction index report).1.deliver sink, true) := by
  unfold transaction
  rw [display_deliver]
  split
  · exact write_deliver unfailing reporter (.transaction index report)
  · rfl

theorem progress_deliver (stats : Statistics) :
    (reporter.deliver sink).progress stats = ((reporter.progress stats).1.deliver sink, true) := by
  unfold progress
  rw [display_deliver]
  split
  · rfl
  · simp only [write_deliver unfailing]
    rfl

end Reporter

/-- The line of counters is shown. -/
def Display.isLive (display : Display) : Bool :=
  ! display.showAll && display.liveStatus

/-- What writing an entry on a line of its own appends: a line of counters is made blank first. -/
def Entry.apart (shown : Bool) (entry : Entry) : List Entry :=
  if shown then [.blanking, entry] else [entry]

namespace Reporter

variable (reporter : Reporter Transcript)

theorem transaction_transcript (index : Nat) (report : TxReport) :
    (reporter.transaction index report).1 = { reporter with
      sink := reporter.sink ++
        if reporter.display.showAll then [.transaction index report] else [] } := by
  unfold transaction
  split
  · rfl
  · rw [List.append_nil]

theorem progress_transcript (stats : Statistics) :
    (reporter.progress stats).1 =
      if reporter.display.isLive then ⟨reporter.display, true, reporter.sink ++ [.status stats]⟩
      else reporter := by
  obtain ⟨⟨showAll, liveStatus, usdPrice⟩, shown, sink⟩ := reporter
  cases showAll <;> cases liveStatus <;> rfl

theorem display_progress (stats : Statistics) :
    (reporter.progress stats).1.display = reporter.display := by
  rw [progress_transcript]
  split <;> rfl

theorem sink_progress (stats : Statistics) :
    (reporter.progress stats).1.sink = reporter.sink ++
      if reporter.display.isLive then [.status stats] else [] := by
  rw [progress_transcript]
  split
  · rfl
  · rw [List.append_nil]

theorem writeApart_transcript (entry : Entry) :
    (reporter.writeApart entry).1 =
      ⟨reporter.display, false, reporter.sink ++ entry.apart reporter.statusShown⟩ := by
  obtain ⟨display, shown, sink⟩ := reporter
  cases shown with
  | true =>
    show Reporter.mk display false (sink ++ [.blanking] ++ [entry]) = _
    rw [List.append_assoc]
    rfl
  | false => rfl

end Reporter

end Report

namespace Ledger

open Report

variable {σ : Type} [Sink σ]

/-- The same ledger, with its transcript given to a sink. -/
def deliver (sink : σ) (ledger : Ledger Transcript) : Ledger σ :=
  ⟨ledger.stats, ledger.reporter.deliver sink⟩

section

variable {sink : σ} (unfailing : Sink.Unfailing sink)
include unfailing

theorem write_deliver (stats : Statistics) (time : TimeOfDay) (report : TxReport)
    (reporter : Reporter Transcript) :
    write stats time report (reporter.deliver sink) =
      (write stats time report reporter).deliver sink := by
  unfold write
  simp only [Reporter.transaction_deliver unfailing]
  split
  · rfl
  · exact congrArg Prod.fst (Reporter.writeApart_deliver unfailing _ _)

theorem record_deliver (ledger : Ledger Transcript) (time : TimeOfDay) (event : Event) :
    (ledger.deliver sink).record time event = (ledger.record time event).deliver sink := by
  cases event with
  | analyzed report =>
    unfold record deliver
    simp only [write_deliver unfailing, Reporter.progress_deliver unfailing]
  | notFound hash | failed hash reason =>
    unfold record deliver
    simp only [Reporter.progress_deliver unfailing]

theorem recordAll_deliver (ledger : Ledger Transcript) (events : List (TimeOfDay × Event)) :
    (ledger.deliver sink).recordAll events = (ledger.recordAll events).deliver sink := by
  induction events generalizing ledger with
  | nil => rfl
  | cons entry rest ih =>
    calc (ledger.deliver sink).recordAll (entry :: rest)
      _ = ((ledger.deliver sink).record entry.1 entry.2).recordAll rest := rfl
      _ = ((ledger.record entry.1 entry.2).deliver sink).recordAll rest := by
        rw [record_deliver unfailing]
      _ = (ledger.recordAll (entry :: rest)).deliver sink := ih (ledger.record entry.1 entry.2)

theorem finish_deliver (ledger : Ledger Transcript) :
    (ledger.deliver sink).finish = ledger.finish.deliver sink := by
  unfold finish deliver Reporter.summary
  simp only [Reporter.writeApart_deliver unfailing]

end

/-- What is written about an event that the counters include, apart from the line of counters. -/
def entriesAbout (display : Display) (shown : Bool) (stats : Statistics) (time : TimeOfDay) :
    Event → List Entry
  | .analyzed report =>
    (if display.showAll then [Entry.transaction stats.analyzed report] else []) ++
      if report.opportunities.isEmpty then []
      else (Entry.opportunities stats.withOpportunities time display.usdPrice report).apart shown
  | .notFound _ | .failed _ _ => []

theorem sink_write (stats : Statistics) (time : TimeOfDay) (report : TxReport)
    (reporter : Reporter Transcript) :
    (write stats time report reporter).sink = reporter.sink ++
      entriesAbout reporter.display reporter.statusShown stats time (.analyzed report) := by
  unfold write entriesAbout
  simp only [Reporter.transaction_transcript]
  rw [← List.append_assoc]
  split
  · rw [List.append_nil]
  · simp only [Reporter.opportunities, Reporter.writeApart_transcript]

theorem display_write (stats : Statistics) (time : TimeOfDay) (report : TxReport)
    (reporter : Reporter Transcript) :
    (write stats time report reporter).display = reporter.display := by
  unfold write
  simp only [Reporter.transaction_transcript]
  split
  · rfl
  · simp only [Reporter.opportunities, Reporter.writeApart_transcript]

variable (ledger : Ledger Transcript) (time : TimeOfDay) (event : Event)

@[simp] theorem display_record :
    (ledger.record time event).reporter.display = ledger.reporter.display := by
  cases event with
  | analyzed report => exact (Reporter.display_progress _ _).trans (display_write _ _ _ _)
  | notFound hash | failed hash reason => exact Reporter.display_progress _ _

theorem sink_record :
    (ledger.record time event).reporter.sink = ledger.reporter.sink ++
      (entriesAbout ledger.reporter.display ledger.reporter.statusShown
          (ledger.stats.record event) time event ++
        if ledger.reporter.display.isLive then [.status (ledger.stats.record event)] else []) := by
  cases event with
  | analyzed report =>
    rw [record, Reporter.sink_progress, sink_write, display_write, List.append_assoc]
  | notFound hash | failed hash reason => exact Reporter.sink_progress _ _

@[simp] theorem display_recordAll (events : List (TimeOfDay × Event)) :
    (ledger.recordAll events).reporter.display = ledger.reporter.display := by
  induction events generalizing ledger with
  | nil => rfl
  | cons entry rest ih => exact (ih (ledger.record entry.1 entry.2)).trans (display_record _ _ _)

theorem recordAll_append {σ : Type} [Sink σ] (ledger : Ledger σ)
    (first second : List (TimeOfDay × Event)) :
    ledger.recordAll (first ++ second) = (ledger.recordAll first).recordAll second :=
  List.foldl_append

/-- What is written stays. -/
theorem sink_prefix_recordAll (events : List (TimeOfDay × Event)) :
    ledger.reporter.sink <+: (ledger.recordAll events).reporter.sink := by
  induction events generalizing ledger with
  | nil => exact List.prefix_rfl
  | cons entry rest ih =>
    have first : ledger.reporter.sink <+: (ledger.record entry.1 entry.2).reporter.sink := by
      rw [sink_record]
      exact List.prefix_append _ _
    exact first.trans (ih (ledger.record entry.1 entry.2))

@[simp] theorem display_finish : ledger.finish.reporter.display = ledger.reporter.display := by
  rw [finish, Reporter.summary, Reporter.writeApart_transcript]

theorem sink_finish :
    ledger.finish.reporter.sink =
      ledger.reporter.sink ++ (Entry.summary ledger.stats).apart ledger.reporter.statusShown := by
  rw [finish, Reporter.summary, Reporter.writeApart_transcript]

/-- A fresh ledger with the events recorded, which writes to a transcript. -/
def transcribed (display : Display) (events : List (TimeOfDay × Event)) : Ledger Transcript :=
  (new (.new display [])).recordAll events

/-- All entries that a fresh ledger writes about the events, the summary included. -/
def reportOf (display : Display) (events : List (TimeOfDay × Event)) : List Entry :=
  (transcribed display events).finish.reporter.sink

theorem recordAll_new {σ : Type} [Sink σ] {sink : σ} (unfailing : Sink.Unfailing sink)
    (display : Display) (events : List (TimeOfDay × Event)) :
    (new (.new display sink)).recordAll events = (transcribed display events).deliver sink :=
  recordAll_deliver unfailing (new (.new display [])) events

end Ledger

end MempoolWatch
