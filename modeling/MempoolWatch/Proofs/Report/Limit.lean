import MempoolWatch.Proofs.Report.StatusLine

/-! An output that fails. A sink may take only a part of an entry and must then take nothing more.
The reporter notices the failure and goes on differently from then on, but what it still writes
has no effect, so that the sink ends as if it had been given the whole report. For an output of
bytes this says that it holds as much of the report as there was room for. -/
namespace MempoolWatch

namespace Report

variable {σ : Type} [Sink σ]

namespace Sink

/-- The sink stays as it is, whatever it is given. -/
def Full (sink : σ) : Prop :=
  ∀ entry, (write sink entry).1 = sink

/-- Once the sink has not taken an entry as a whole it is full. -/
def FailsForGood (sink : σ) : Prop :=
  ∀ earlier entry, (write (putAll sink earlier) entry).2 = false →
    Full (putAll sink (earlier ++ [entry]))

theorem putAll_append (sink : σ) (first second : List Entry) :
    putAll sink (first ++ second) = putAll (putAll sink first) second :=
  List.foldl_append

theorem putAll_concat (sink : σ) (earlier : List Entry) (entry : Entry) :
    putAll sink (earlier ++ [entry]) = (write (putAll sink earlier) entry).1 :=
  putAll_append sink earlier [entry]

theorem Full.putAll {sink : σ} (full : Full sink) (entries : List Entry) :
    putAll sink entries = sink := by
  induction entries with
  | nil => rfl
  | cons entry rest ih =>
    show Sink.putAll (write sink entry).1 rest = sink
    rw [full entry]
    exact ih

theorem putAll_transcript (transcript : Transcript) (entries : List Entry) :
    putAll transcript entries = transcript ++ entries := by
  induction entries generalizing transcript with
  | nil => exact (List.append_nil _).symm
  | cons entry rest ih =>
    show putAll (transcript ++ [entry]) rest = transcript ++ entry :: rest
    rw [ih, List.append_assoc, List.singleton_append]

end Sink

namespace Reporter

/-- Between the two nothing was done to the sink but to give it entries. -/
def Feeds (first second : Reporter σ) : Prop :=
  ∃ entries, second.sink = Sink.putAll first.sink entries

namespace Feeds

variable {first second third : Reporter σ}

theorem refl (reporter : Reporter σ) : reporter.Feeds reporter :=
  ⟨[], rfl⟩

theorem trans (before : first.Feeds second) (behind : second.Feeds third) : first.Feeds third := by
  obtain ⟨earlier, before⟩ := before
  obtain ⟨later, behind⟩ := behind
  exact ⟨earlier ++ later, by rw [behind, before, Sink.putAll_append]⟩

end Feeds

variable (reporter : Reporter σ)

theorem feeds_write (entry : Entry) : reporter.Feeds (reporter.write entry).1 :=
  ⟨[entry], rfl⟩

theorem feeds_clear : reporter.Feeds reporter.clear.1 := by
  unfold clear
  split
  · exact ⟨[.blanking], rfl⟩
  · exact .refl _

theorem feeds_writeApart (entry : Entry) : reporter.Feeds (reporter.writeApart entry).1 := by
  unfold writeApart
  dsimp only
  split
  · exact reporter.feeds_clear.trans (feeds_write _ entry)
  · exact reporter.feeds_clear

theorem feeds_transaction (index : Nat) (report : TxReport) :
    reporter.Feeds (reporter.transaction index report).1 := by
  unfold transaction
  split
  · exact feeds_write _ _
  · exact .refl _

theorem feeds_progress (stats : Statistics) : reporter.Feeds (reporter.progress stats).1 := by
  unfold progress
  split
  · exact .refl _
  · dsimp only
    split <;> exact ⟨[.status stats], rfl⟩

theorem fst_write_deliver (sink : σ) (transcript : Reporter Transcript) (entry : Entry) :
    ((transcript.deliver sink).write entry).1 = (transcript.write entry).1.deliver sink := by
  show Reporter.mk _ _ (Sink.write (Sink.putAll sink transcript.sink) entry).1 = _
  rw [← Sink.putAll_concat]
  rfl

/-- An entry is taken as a whole, or the sink is full with a part of it. -/
theorem write_deliver_or {sink : σ} (fails : Sink.FailsForGood sink)
    (transcript : Reporter Transcript) (entry : Entry) :
    (transcript.deliver sink).write entry = ((transcript.write entry).1.deliver sink, true) ∨
      (transcript.deliver sink).write entry = ((transcript.write entry).1.deliver sink, false) ∧
        Sink.Full ((transcript.write entry).1.deliver sink).sink := by
  have given := fst_write_deliver sink transcript entry
  cases taken : ((transcript.deliver sink).write entry).2 with
  | true => exact Or.inl (Prod.ext given taken)
  | false => exact Or.inr ⟨Prod.ext given taken, fails transcript.sink entry taken⟩

theorem clear_deliver_or {sink : σ} (fails : Sink.FailsForGood sink)
    (transcript : Reporter Transcript) :
    (transcript.deliver sink).clear = (transcript.clear.1.deliver sink, true) ∨
      (transcript.deliver sink).clear = (transcript.clear.1.deliver sink, false) ∧
        Sink.Full (transcript.clear.1.deliver sink).sink := by
  unfold clear
  rw [statusShown_deliver]
  split
  · exact write_deliver_or fails { transcript with statusShown := false } .blanking
  · exact Or.inl rfl

/-- How a reporter stands to one that keeps a transcript and was used in the same way: it is in the
same state with all entries given to its sink, or the sink is full and holds what it has taken of
the transcript. -/
inductive Follows (sink : σ) (transcript : Reporter Transcript) : Reporter σ → Prop
  | same : Follows sink transcript (transcript.deliver sink)
  | full {reporter : Reporter σ} (full : Sink.Full reporter.sink)
      (holds : reporter.sink = Sink.putAll sink transcript.sink) : Follows sink transcript reporter

namespace Follows

variable {sink : σ} {transcript later : Reporter Transcript} {reporter next : Reporter σ}

theorem sink_eq (follows : Follows sink transcript reporter) :
    reporter.sink = Sink.putAll sink transcript.sink := by
  cases follows with
  | same => rfl
  | full full holds => exact holds

/-- What is given to a full sink is lost on both sides. -/
theorem of_full (full : Sink.Full reporter.sink)
    (holds : reporter.sink = Sink.putAll sink transcript.sink)
    (here : reporter.Feeds next) (there : transcript.Feeds later) : Follows sink later next := by
  obtain ⟨entries, given⟩ := here
  obtain ⟨written, kept⟩ := there
  rw [full.putAll] at given
  rw [Sink.putAll_transcript] at kept
  constructor
  · rw [given]
    exact full
  · rw [given, kept, Sink.putAll_append, ← holds, full.putAll]

theorem transaction (follows : Follows sink transcript reporter) (index : Nat)
    (report : TxReport) :
    Follows sink (transcript.transaction index report).1 (reporter.transaction index report).1 := by
  cases follows with
  | same =>
    unfold Reporter.transaction
    rw [display_deliver]
    split
    · rw [fst_write_deliver]
      exact .same
    · exact .same
  | full full holds =>
    exact of_full full holds (feeds_transaction _ _ _) (feeds_transaction _ _ _)

theorem progress (fails : Sink.FailsForGood sink) (follows : Follows sink transcript reporter)
    (stats : Statistics) :
    Follows sink (transcript.progress stats).1 (reporter.progress stats).1 := by
  cases follows with
  | same =>
    unfold Reporter.progress
    rw [display_deliver]
    split
    · exact .same
    · obtain whole | ⟨part, full⟩ := write_deliver_or fails transcript (.status stats)
      · rw [whole]
        exact .same
      · rw [part]
        exact .full full rfl
  | full full holds => exact of_full full holds (feeds_progress _ _) (feeds_progress _ _)

theorem writeApart (fails : Sink.FailsForGood sink) (follows : Follows sink transcript reporter)
    (entry : Entry) :
    Follows sink (transcript.writeApart entry).1 (reporter.writeApart entry).1 := by
  cases follows with
  | same =>
    have cleared : transcript.clear.2 = true := by
      unfold clear
      split <;> rfl
    unfold Reporter.writeApart
    simp only [cleared, if_true]
    obtain whole | ⟨part, full⟩ := clear_deliver_or fails transcript
    · simp only [whole, if_true]
      rw [fst_write_deliver]
      exact .same
    · simp only [part, Bool.false_eq_true, if_false]
      exact of_full full rfl (.refl _) (feeds_write _ _)
  | full full holds => exact of_full full holds (feeds_writeApart _ _) (feeds_writeApart _ _)

theorem opportunities (fails : Sink.FailsForGood sink)
    (follows : Follows sink transcript reporter) (number : Nat) (time : TimeOfDay)
    (report : TxReport) :
    Follows sink (transcript.opportunities number time report).1
      (reporter.opportunities number time report).1 := by
  cases follows with
  | same => exact writeApart fails .same _
  | full full holds => exact of_full full holds (feeds_writeApart _ _) (feeds_writeApart _ _)

end Follows

end Reporter

namespace Output

theorem putAll_limited (written : Bytes) (room : Nat) (entries : List Entry) :
    Sink.putAll (Output.mk written (some room)) entries =
      ⟨written ++ (entries.flatMap (Utf8.encode ·.text)).take room,
        some (room - (entries.flatMap (Utf8.encode ·.text)).length)⟩ := by
  induction entries generalizing written room with
  | nil => simp [Sink.putAll]
  | cons entry rest ih =>
    refine (ih _ _).trans ?_
    rw [List.flatMap_cons, List.take_append, List.length_append, List.append_assoc, Nat.sub_sub]

end Output

/-- How the text of every entry is cut into the parts that are written one after another. -/
structure Cutting where
  parts : Entry → List Bytes
  flatten_parts : ∀ entry, (parts entry).flatten = Utf8.encode entry.text

/-- Every byte is a part of its own. -/
def Cutting.bytewise : Cutting where
  parts entry := (Utf8.encode entry.text).map ([·])
  flatten_parts _ := List.flatMap_singleton' _

/-- Writes parts one after another, up to the first that is not taken as a whole. -/
def Output.appendAll (output : Output) : List Bytes → Output × Bool
  | [] => (output, true)
  | part :: rest =>
    let (output, taken) := output.append part
    if taken then output.appendAll rest else (output, false)

/-- An output that is given the parts of each entry. -/
structure PartwiseOutput (cutting : Cutting) where
  output : Output

namespace PartwiseOutput

variable {cutting : Cutting}

def empty (cutting : Cutting) (room : Option Nat) : PartwiseOutput cutting := ⟨.empty room⟩

def written (partwise : PartwiseOutput cutting) : Bytes := partwise.output.written

instance : Sink (PartwiseOutput cutting) where
  write partwise entry :=
    let (output, taken) := partwise.output.appendAll (cutting.parts entry)
    (⟨output⟩, taken)

end PartwiseOutput

namespace Output

variable {output : Output} {front : Bytes}

theorem append_of_taken (taken : (output.append front).2 = true) (back : Bytes) :
    (output.append front).1.append back = output.append (front ++ back) := by
  obtain ⟨written, _ | room⟩ := output
  · simp [append]
  · have fits : front.length ≤ room := of_decide_eq_true taken
    have whole : front.take room = front := List.take_of_length_le fits
    have split : front.length + back.length ≤ room ↔ back.length ≤ room - front.length := by omega
    simp [append, List.take_append, whole, split, Nat.sub_sub]

theorem append_of_refused (refused : (output.append front).2 = false) (back : Bytes) :
    output.append (front ++ back) = ((output.append front).1, false) := by
  obtain ⟨written, _ | room⟩ := output
  · cases refused
  · have exceeds : ¬ front.length ≤ room := of_decide_eq_false refused
    have cut : (front ++ back).take room = front.take room :=
      List.take_append_of_le_length (by omega)
    have full : room - front.length = 0 := by omega
    have beyond : ¬ front.length + back.length ≤ room := by omega
    simp [append, cut, beyond, full]
    omega

theorem room_of_refused (refused : (output.append front).2 = false) :
    (output.append front).1.room = some 0 := by
  obtain ⟨written, _ | room⟩ := output
  · cases refused
  · have exceeds : ¬ front.length ≤ room := of_decide_eq_false refused
    exact congrArg some (by omega)

theorem fst_append_of_full (full : output.room = some 0) (bytes : Bytes) :
    (output.append bytes).1 = output := by
  obtain ⟨written, room⟩ := output
  cases full
  simp [append]

/-- It does not matter where the parts end. -/
theorem appendAll_eq (output : Output) (parts : List Bytes) :
    output.appendAll parts = output.append parts.flatten := by
  induction parts generalizing output with
  | nil => obtain ⟨written, _ | room⟩ := output <;> simp [appendAll, append]
  | cons part rest ih =>
    rw [appendAll, List.flatten_cons]
    cases taken : (output.append part).2 with
    | true => simp only [taken, if_true, ih, append_of_taken taken]
    | false => simp only [taken, Bool.false_eq_true, if_false, append_of_refused taken]

end Output

end Report

namespace Ledger

open Report

variable {σ : Type} [Sink σ]

/-- How a ledger stands to one that keeps a transcript and has recorded the same events. -/
structure Follows (sink : σ) (transcript : Ledger Transcript) (ledger : Ledger σ) : Prop where
  stats : ledger.stats = transcript.stats
  reporter : Reporter.Follows sink transcript.reporter ledger.reporter

theorem follows_write {sink : σ} (fails : Sink.FailsForGood sink) (stats : Statistics)
    (time : TimeOfDay) (report : TxReport) {transcript : Reporter Transcript}
    {reporter : Reporter σ} (follows : Reporter.Follows sink transcript reporter) :
    Reporter.Follows sink (write stats time report transcript)
      (write stats time report reporter) := by
  have lined := follows.transaction stats.analyzed report
  unfold write
  dsimp only
  split
  · exact lined
  · exact lined.opportunities fails stats.withOpportunities time report

namespace Follows

variable {sink : σ} {transcript : Ledger Transcript} {ledger : Ledger σ}

theorem record (fails : Sink.FailsForGood sink) (follows : Follows sink transcript ledger)
    (time : TimeOfDay) (event : Event) :
    Follows sink (transcript.record time event) (ledger.record time event) := by
  obtain ⟨same, reporter⟩ := follows
  constructor
  · show ledger.stats.record event = transcript.stats.record event
    rw [same]
  · cases event with
    | analyzed report =>
      simp only [Ledger.record, same]
      exact (follows_write fails _ time report reporter).progress fails _
    | notFound hash | failed hash reason =>
      simp only [Ledger.record, same]
      exact reporter.progress fails _

theorem recordAll (fails : Sink.FailsForGood sink) (follows : Follows sink transcript ledger)
    (events : List (TimeOfDay × Event)) :
    Follows sink (transcript.recordAll events) (ledger.recordAll events) := by
  induction events generalizing transcript ledger with
  | nil => exact follows
  | cons recorded rest ih => exact ih (follows.record fails recorded.1 recorded.2)

theorem finish (fails : Sink.FailsForGood sink) (follows : Follows sink transcript ledger) :
    Follows sink transcript.finish ledger.finish := by
  obtain ⟨same, reporter⟩ := follows
  constructor
  · exact same
  · simp only [Ledger.finish, same]
    exact reporter.writeApart fails _

end Follows

/-- A sink that fails for good holds what it takes of the whole report, and the statistics are those
of the transcript. -/
theorem follows_new {sink : σ} (fails : Sink.FailsForGood sink) (display : Display)
    (events : List (TimeOfDay × Event)) :
    Follows sink (transcribed display events) ((new (.new display sink)).recordAll events) :=
  Follows.recordAll fails ⟨rfl, .same⟩ events

theorem sink_finish_recordAll_new {sink : σ} (fails : Sink.FailsForGood sink) (display : Display)
    (events : List (TimeOfDay × Event)) :
    ((new (.new display sink)).recordAll events).finish.reporter.sink =
      Sink.putAll sink (reportOf display events) :=
  ((follows_new fails display events).finish fails).reporter.sink_eq

end Ledger

namespace Report

variable {cutting : Cutting}

namespace PartwiseOutput

theorem write_eq (partwise : PartwiseOutput cutting) (entry : Entry) :
    Sink.write partwise entry =
      (⟨(Sink.write partwise.output entry).1⟩, (Sink.write partwise.output entry).2) := by
  have whole : partwise.output.appendAll (cutting.parts entry) = Sink.write partwise.output entry := by
    rw [Output.appendAll_eq, cutting.flatten_parts]
    rfl
  rw [← whole]
  rfl

theorem putAll_eq (partwise : PartwiseOutput cutting) (entries : List Entry) :
    Sink.putAll partwise entries = ⟨Sink.putAll partwise.output entries⟩ := by
  induction entries generalizing partwise with
  | nil => rfl
  | cons entry rest ih =>
    show Sink.putAll (Sink.write partwise entry).1 rest = _
    rw [write_eq, ih]
    rfl

theorem failsForGood_empty (cutting : Cutting) (room : Option Nat) :
    Sink.FailsForGood (empty cutting room) := by
  intro earlier entry refused next
  rw [putAll_eq, write_eq] at refused
  rw [putAll_eq, write_eq, Sink.putAll_concat]
  have full := Output.room_of_refused refused
  exact congrArg PartwiseOutput.mk (Output.fst_append_of_full full (Utf8.encode next.text))

theorem written_putAll (cutting : Cutting) (entries : List Entry) (limit : Nat) :
    (Sink.putAll (empty cutting (some limit)) entries).written =
      (Sink.putAll (empty cutting none) entries).written.take limit := by
  rw [putAll_eq, putAll_eq]
  show (Sink.putAll (Output.mk [] (some limit)) entries).written =
    (Sink.putAll (Output.mk [] none) entries).written.take limit
  rw [Output.putAll_limited, Output.putAll_unlimited]
  rfl

end PartwiseOutput

end Report

namespace Ledger

open Report

/-- Whatever room the output has and however the text of the entries is cut into parts, the
statistics are the same after every event and at the end, and the output holds as much of the
unlimited one as there is room for. -/
theorem failing_output_keeps_prefix (cutting : Cutting) (display : Display)
    (events : List (TimeOfDay × Event)) (limit : Nat) :
    let limited := (new (.new display (PartwiseOutput.empty cutting (some limit)))).recordAll events
    let unlimited := (new (.new display (PartwiseOutput.empty cutting none))).recordAll events
    limited.stats = unlimited.stats ∧
    limited.reporter.sink.written = unlimited.reporter.sink.written.take limit ∧
    limited.finish.stats = unlimited.finish.stats ∧
    limited.finish.reporter.sink.written = unlimited.finish.reporter.sink.written.take limit := by
  intro limited unlimited
  have short : Follows _ _ limited :=
    follows_new (PartwiseOutput.failsForGood_empty cutting (some limit)) display events
  have long : Follows _ _ unlimited :=
    follows_new (PartwiseOutput.failsForGood_empty cutting none) display events
  refine ⟨?_, ?_, ?_, ?_⟩
  · rw [short.stats, long.stats]
  · rw [short.reporter.sink_eq, long.reporter.sink_eq]
    exact PartwiseOutput.written_putAll cutting _ limit
  · show limited.stats = unlimited.stats
    rw [short.stats, long.stats]
  · rw [sink_finish_recordAll_new (PartwiseOutput.failsForGood_empty cutting (some limit)),
      sink_finish_recordAll_new (PartwiseOutput.failsForGood_empty cutting none)]
    exact PartwiseOutput.written_putAll cutting _ limit

/-- A report that is written byte by byte. -/
def bytewiseReport (room : Option Nat) : Ledger (PartwiseOutput .bytewise) :=
  ((new (.new {} (.empty .bytewise room))).recordAll goneThenFound).finish

/-- The output is full in the middle of the first line of counters, and what follows is lost. -/
theorem bytewiseReport_cut_off :
    let firstLine := Utf8.encode (Entry.text (.status { notifications := 1, notFound := 1 }))
    30 < firstLine.length ∧ (bytewiseReport (some 30)).reporter.sink.written = firstLine.take 30 ∧
      (bytewiseReport (some 30)).stats = (bytewiseReport none).stats ∧
      (bytewiseReport none).stats.withOpportunities = 1 := by
  intro firstLine
  obtain ⟨_, _, stats, written⟩ := failing_output_keeps_prefix .bytewise {} goneThenFound 30
  have full : (bytewiseReport none).reporter.sink.written.take 30 = firstLine.take 30 := by
    decide +kernel
  exact ⟨by decide +kernel, written.trans full, stats, by decide +kernel⟩

end Ledger

end MempoolWatch
