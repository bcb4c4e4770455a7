import Mathlib.Data.List.Induction
import Mathlib.Data.Nat.Digits.Defs
import MempoolWatch.Proofs.Counters
import MempoolWatch.Proofs.Report.Limit
import MempoolWatch.Proofs.Report.StatusLine

/-! The line of counters on a screen. No counter goes down, and a greater number has no fewer
digits, so that a line of counters is at least as long as those before it. Writing it over the one
that stands then leaves nothing of that one, and the screen shows the last line of counters and
nothing else on its line. -/
namespace MempoolWatch

theorem length_toDigits_mono {base first second : Nat} (le : first ≤ second) (above : 1 < base) :
    (Nat.toDigits base first).length ≤ (Nat.toDigits base second).length := by
  have fits : second < base ^ (Nat.toDigits base second).length :=
    (Nat.length_toDigits_le_iff above Nat.length_toDigits_pos).mp (Nat.le_refl _)
  exact (Nat.length_toDigits_le_iff above Nat.length_toDigits_pos).mpr (Nat.lt_of_le_of_lt le fits)

theorem length_toString_mono {first second : Nat} (le : first ≤ second) :
    (toString first).length ≤ (toString second).length := by
  simp only [Nat.toString_eq_ofList_toDigits, String.length_ofList]
  exact length_toDigits_mono le (by decide)

namespace Statistics

/-- No counter of the first is above that of the second. -/
def AtMost (first second : Statistics) : Prop :=
  ∀ counter ∈ counters, counter first ≤ counter second

namespace AtMost

variable {first second third : Statistics}

theorem trans (before : first.AtMost second) (behind : second.AtMost third) :
    first.AtMost third :=
  fun counter member => Nat.le_trans (before counter member) (behind counter member)

theorem record (stats : Statistics) (event : Event) : stats.AtMost (stats.record event) :=
  fun _ member => counter_le_add member stats (ofEvent event)

end AtMost

/-- The counters after each of the events. -/
def afterEach (stats : Statistics) : List (TimeOfDay × Event) → List Statistics
  | [] => []
  | (_, event) :: rest => stats.record event :: afterEach (stats.record event) rest

theorem length_afterEach (stats : Statistics) (events : List (TimeOfDay × Event)) :
    (stats.afterEach events).length = events.length := by
  induction events generalizing stats with
  | nil => rfl
  | cons entry rest ih => exact congrArg Nat.succ (ih (stats.record entry.2))

theorem afterEach_concat (stats : Statistics) (front : List (TimeOfDay × Event))
    (last : TimeOfDay × Event) :
    stats.afterEach (front ++ [last]) =
      stats.afterEach front ++ [((front ++ [last]).map Prod.snd).foldl record stats] := by
  induction front generalizing stats with
  | nil => rfl
  | cons entry rest ih => exact congrArg (stats.record entry.2 :: ·) (ih (stats.record entry.2))

theorem atMost_of_mem_afterEach {stats later : Statistics} {events : List (TimeOfDay × Event)}
    (member : later ∈ stats.afterEach events) : stats.AtMost later := by
  induction events generalizing stats with
  | nil => cases member
  | cons entry rest ih =>
    have step : stats.AtMost (stats.record entry.2) := .record stats entry.2
    obtain rfl | inside := List.mem_cons.mp member
    · exact step
    · exact step.trans (ih inside)

/-- After each event no counter is below what it was after an earlier one. -/
theorem pairwise_afterEach (stats : Statistics) (events : List (TimeOfDay × Event)) :
    (stats.afterEach events).Pairwise AtMost := by
  induction events generalizing stats with
  | nil => exact .nil
  | cons entry rest ih =>
    exact .cons (fun _ member => atMost_of_mem_afterEach member) (ih (stats.record entry.2))

end Statistics

namespace Report

namespace Entry

def status? : Entry → Option Statistics
  | status stats => some stats
  | _ => none

/-- The counters that the line shows, each behind its label. -/
def statusColumns : List (String × (Statistics → Nat)) :=
  [("🔔 Tx #", Statistics.notifications), (" | Swaps: ", Statistics.swaps),
    (" | ETH: ", Statistics.ethTransfers), (" | Outras: ", Statistics.unknown),
    (" | MEV: ", Statistics.opportunities)]

def columnText (stats : Statistics) (column : String × (Statistics → Nat)) : List Char :=
  column.1.toList ++ (toString (column.2 stats)).toList

/-- What a line of counters shows: its text without the carriage return before it. -/
def statusLine (stats : Statistics) : List Char :=
  statusColumns.flatMap (columnText stats)

theorem toList_statusText (stats : Statistics) :
    (statusText stats).toList = '\r' :: statusLine stats := by
  have front : "\r🔔 Tx #".toList = '\r' :: "🔔 Tx #".toList := by decide
  unfold statusText
  simp only [String.toList_append, front, List.cons_append]
  simp only [statusLine, statusColumns, columnText, List.flatMap_cons, List.flatMap_nil,
    List.append_nil, List.append_assoc]

theorem length_statusText (stats : Statistics) :
    (statusText stats).length = (statusLine stats).length + 1 := by
  rw [← String.length_toList, toList_statusText, List.length_cons]

theorem length_columnText_mono {first second : Statistics} {column : String × (Statistics → Nat)}
    (le : column.2 first ≤ column.2 second) :
    (columnText first column).length ≤ (columnText second column).length := by
  have digits := length_toString_mono le
  simp only [columnText, List.length_append, String.length_toList]
  exact Nat.add_le_add_left digits _

theorem length_columns_mono {first second : Statistics}
    {columns : List (String × (Statistics → Nat))}
    (le : ∀ column ∈ columns, column.2 first ≤ column.2 second) :
    (columns.flatMap (columnText first)).length ≤ (columns.flatMap (columnText second)).length := by
  induction columns with
  | nil => exact Nat.le_refl 0
  | cons column rest ih =>
    have here := length_columnText_mono (le column List.mem_cons_self)
    have behind := ih fun column member => le column (List.mem_cons_of_mem _ member)
    simp only [List.flatMap_cons, List.length_append]
    exact Nat.add_le_add here behind

theorem mem_counters_of_mem_statusColumns {column : String × (Statistics → Nat)}
    (member : column ∈ statusColumns) : column.2 ∈ Statistics.counters := by
  simp only [statusColumns, List.mem_cons, List.not_mem_nil, or_false] at member
  rcases member with rfl | rfl | rfl | rfl | rfl <;> simp [Statistics.counters]

/-- The greater the counters, the longer their line. -/
theorem length_statusLine_mono {first second : Statistics} (atMost : first.AtMost second) :
    (statusLine first).length ≤ (statusLine second).length :=
  length_columns_mono fun column member =>
    atMost column.2 (mem_counters_of_mem_statusColumns member)

theorem length_statusText_mono {first second : Statistics} (atMost : first.AtMost second) :
    (statusText first).length ≤ (statusText second).length := by
  rw [length_statusText, length_statusText]
  exact Nat.succ_le_succ (length_statusLine_mono atMost)

end Entry

/-- The last line of a screen: its cells and the column of the next character. -/
structure Screen where
  cells : List Char
  column : Nat

namespace Screen

def blank : Screen := ⟨[], 0⟩

/-- A line feed begins an empty line, a carriage return goes back to the first column and leaves
the cells, and any other character takes the place of what its cell showed. -/
def put (screen : Screen) (c : Char) : Screen :=
  if c = '\n' then blank
  else if c = '\r' then { screen with column := 0 }
  else ⟨screen.cells.take screen.column ++ c :: screen.cells.drop (screen.column + 1),
    screen.column + 1⟩

instance : Sink Screen where
  write screen entry := (entry.text.toList.foldl put screen, true)

theorem failsForGood (screen : Screen) : Sink.FailsForGood screen :=
  fun _ _ refused => nomatch refused

/-- A line that shows the counters and nothing else. -/
def showing (stats : Statistics) : Screen :=
  ⟨Entry.statusLine stats, (Entry.statusLine stats).length⟩

/-- Without a line feed or a carriage return, so that each character takes a cell. -/
def OneLine (text : List Char) : Prop :=
  ∀ c ∈ text, c ≠ '\n' ∧ c ≠ '\r'

theorem OneLine.append {first second : List Char} (front : OneLine first) (back : OneLine second) :
    OneLine (first ++ second) :=
  fun c member => (List.mem_append.mp member).elim (front c) (back c)

theorem oneLine_toString (number : Nat) : OneLine (toString number).toList := by
  intro c member
  have digits : (toString number).toList = Nat.toDigits 10 number := by simp
  rw [digits] at member
  have isDigit : c.isDigit = true := Nat.isDigit_of_mem_toDigits (by decide) (by decide) member
  constructor <;> rintro rfl <;> exact absurd isDigit (by decide)

theorem oneLine_statusLine (stats : Statistics) : OneLine (Entry.statusLine stats) := by
  have labels : ∀ column ∈ Entry.statusColumns, OneLine column.1.toList := by
    simp [Entry.statusColumns, OneLine]
  intro c member
  obtain ⟨column, inside, member⟩ := List.mem_flatMap.mp member
  exact (labels column inside).append (oneLine_toString _) c member

/-- The characters take the places of as many cells behind the column. -/
theorem foldl_put {text : List Char} (oneLine : OneLine text) (front rest : List Char) :
    text.foldl put ⟨front ++ rest, front.length⟩ =
      ⟨front ++ text ++ rest.drop text.length, (front ++ text).length⟩ := by
  induction text generalizing front rest with
  | nil => simp
  | cons c text ih =>
    have plain := oneLine c List.mem_cons_self
    have step : put ⟨front ++ rest, front.length⟩ c =
        ⟨(front ++ [c]) ++ rest.drop 1, (front ++ [c]).length⟩ := by
      simp [put, plain]
    rw [List.foldl_cons, step, ih (fun c member => oneLine c (List.mem_cons_of_mem _ member))]
    simp

/-- Written over one that is not longer, or on an empty line, a line of counters stands alone. -/
theorem foldl_put_statusText {screen : Screen} {stats : Statistics}
    (covers : screen.cells.length ≤ (Entry.statusLine stats).length) :
    (Entry.statusText stats).toList.foldl put screen = showing stats := by
  have back : put screen '\r' = ⟨[] ++ screen.cells, ([] : List Char).length⟩ := rfl
  rw [Entry.toList_statusText, List.foldl_cons, back, foldl_put (oneLine_statusLine stats),
    List.drop_eq_nil_of_le covers]
  simp [showing]

theorem foldl_put_line (front text : String) (screen : Screen) :
    (front ++ Entry.line text).toList.foldl put screen = blank := by
  rw [Entry.line, String.toList_append, String.toList_append, List.foldl_append, List.foldl_append]
  rfl

theorem putAll_concat (screen : Screen) (entries : List Entry) (last : Entry) :
    Sink.putAll screen (entries ++ [last]) =
      last.text.toList.foldl put (Sink.putAll screen entries) :=
  Sink.putAll_concat screen entries last

/-- A block of opportunities ends with a line feed. -/
theorem opportunities_ends (number : Nat) (time : TimeOfDay) (usdPrice : Float)
    (report : TxReport) : ∃ front, (Entry.opportunities number time usdPrice report).text =
      front ++ Entry.line (Entry.repeated 80 '=') :=
  ⟨_, rfl⟩

theorem putAll_opportunities (screen : Screen) (shown : Bool) (number : Nat) (time : TimeOfDay)
    (usdPrice : Float) (report : TxReport) :
    Sink.putAll screen ((Entry.opportunities number time usdPrice report).apart shown) = blank := by
  have apart (entry : Entry) :
      entry.apart shown = (if shown then [.blanking] else []) ++ [entry] := by
    cases shown <;> rfl
  obtain ⟨front, ends⟩ := opportunities_ends number time usdPrice report
  rw [apart, putAll_concat, ends, foldl_put_line]

theorem putAll_entriesAbout {display : Display} (live : display.isLive = true) (screen : Screen)
    (shown : Bool) (stats : Statistics) (time : TimeOfDay) (event : Event) :
    let after := Sink.putAll screen (Ledger.entriesAbout display shown stats time event)
    after = screen ∨ after = blank := by
  have some : display.showAll = false := by
    rw [Display.isLive, Bool.and_eq_true] at live
    simpa using live.1
  cases event with
  | analyzed report =>
    simp only [Ledger.entriesAbout, some, Bool.false_eq_true, if_false, List.nil_append]
    split
    · exact Or.inl rfl
    · exact Or.inr (putAll_opportunities screen shown _ time _ report)
  | notFound hash | failed hash reason => exact Or.inl rfl

end Screen

end Report

namespace Ledger

open Report

variable {ledger : Ledger Transcript}

theorem statuses_entriesAbout (display : Display) (shown : Bool) (stats : Statistics)
    (time : TimeOfDay) (event : Event) :
    (entriesAbout display shown stats time event).filterMap Entry.status? = [] := by
  cases event with
  | analyzed report =>
    simp only [entriesAbout]
    cases display.showAll <;> cases report.opportunities.isEmpty <;> cases shown <;> rfl
  | notFound hash | failed hash reason => rfl

/-- What is written about the events holds a line of counters for each of them, if it is live. -/
theorem statuses_recordAll (ledger : Ledger Transcript) (events : List (TimeOfDay × Event)) :
    (ledger.recordAll events).reporter.sink.filterMap Entry.status? =
      ledger.reporter.sink.filterMap Entry.status? ++
        if ledger.reporter.display.isLive then ledger.stats.afterEach events else [] := by
  induction events generalizing ledger with
  | nil => simp [recordAll, Statistics.afterEach]
  | cons entry rest ih =>
    have behind := ih (ledger.record entry.1 entry.2)
    rw [display_record, sink_record, List.filterMap_append, List.filterMap_append,
      statuses_entriesAbout, List.nil_append, List.append_assoc] at behind
    refine behind.trans ?_
    cases ledger.reporter.display.isLive <;> rfl

theorem statuses_reportOf (display : Display) (events : List (TimeOfDay × Event)) :
    (reportOf display events).filterMap Entry.status? =
      if display.isLive then Statistics.afterEach {} events else [] := by
  have summary (stats : Statistics) (shown : Bool) :
      ((Entry.summary stats).apart shown).filterMap Entry.status? = [] := by
    cases shown <;> rfl
  rw [reportOf, sink_finish, List.filterMap_append, summary, List.append_nil]
  exact statuses_recordAll (new (.new display [])) events

/-- The screen on which the entries of the ledger were written. -/
def screen (ledger : Ledger Transcript) : Screen :=
  Sink.putAll .blank ledger.reporter.sink

/-- After an event the screen shows the line of its counters alone. -/
theorem screen_record (live : ledger.reporter.display.isLive = true)
    (covers : ledger.screen.cells.length ≤ (Entry.statusLine ledger.stats).length)
    (time : TimeOfDay) (event : Event) :
    (ledger.record time event).screen = .showing (ledger.stats.record event) := by
  have longer := Entry.length_statusLine_mono (.record ledger.stats event)
  have about := Screen.putAll_entriesAbout live ledger.screen ledger.reporter.statusShown
    (ledger.stats.record event) time event
  rw [screen, sink_record, if_pos live, ← List.append_assoc, Screen.putAll_concat,
    Sink.putAll_append]
  apply Screen.foldl_put_statusText
  obtain same | blank := about
  · exact (congrArg (·.cells.length) same).trans_le (covers.trans longer)
  · exact (congrArg (·.cells.length) blank).trans_le (Nat.zero_le _)

theorem screen_recordAll {display : Display} (live : display.isLive = true)
    (events : List (TimeOfDay × Event)) (some : events ≠ []) :
    (transcribed display events).screen = .showing (transcribed display events).stats := by
  induction events using List.reverseRecOn with
  | nil => exact absurd rfl some
  | append_singleton front last ih =>
    have shows : (transcribed display front).reporter.display = display := display_recordAll _ _
    -- Before the first event the screen is blank, later it shows the line of the event before.
    have covers : (transcribed display front).screen.cells.length ≤
        (Entry.statusLine (transcribed display front).stats).length := by
      by_cases first : front = []
      · rw [first]
        exact Nat.zero_le _
      · rw [ih first]
        exact Nat.le_refl _
    rw [transcribed, recordAll_append]
    exact screen_record (by rwa [shows]) covers last.1 last.2

/-- Whatever events a fresh ledger records before it is finished, and whatever sink it writes to,
if that takes nothing more once it has failed: of any two lines of counters in the report the later
one has at least as many characters. There is such a line for each event, if the line of counters
is shown, and after any event a screen to which the report was written shows the characters of its
last line of counters behind the carriage return, with nothing of an earlier one after them. -/
theorem status_lines_never_shrink {σ : Type} [Sink σ] {sink : σ} (fails : Sink.FailsForGood sink)
    (display : Display) (events : List (TimeOfDay × Event)) :
    let recorded := (new (.new display sink)).recordAll events
    let statuses := (reportOf display events).filterMap Entry.status?
    let screen := ((new (.new display Screen.blank)).recordAll events).reporter.sink
    recorded.finish.reporter.sink = Sink.putAll sink (reportOf display events) ∧
    (statuses.map Entry.statusText).Pairwise (fun earlier later => earlier.length ≤ later.length) ∧
    (display.isLive = true → statuses.length = events.length) ∧
    (display.isLive = true → events ≠ [] →
      statuses.getLast? = some recorded.stats ∧
      '\r' :: screen.cells = (Entry.statusText recorded.stats).toList ∧
      screen.column = screen.cells.length) := by
  intro recorded statuses screen
  have written : statuses = if display.isLive then Statistics.afterEach {} events else [] :=
    statuses_reportOf display events
  have counted : recorded.stats = (transcribed display events).stats := by
    rw [transcribed, stats_recordAll, stats_recordAll]
    rfl
  have delivered : screen = (transcribed display events).screen :=
    congrArg (·.reporter.sink) (recordAll_new (fun _ _ => rfl) display events)
  refine ⟨sink_finish_recordAll_new fails display events, ?_, ?_, ?_⟩
  · have grows : statuses.Pairwise Statistics.AtMost := by
      rw [written]
      split
      · exact Statistics.pairwise_afterEach {} events
      · exact .nil
    exact List.pairwise_map.mpr (grows.imp Entry.length_statusText_mono)
  · intro live
    rw [written, if_pos live, Statistics.length_afterEach]
  · intro live some
    have shows : screen = .showing recorded.stats := by
      rw [delivered, counted]
      exact screen_recordAll live events some
    refine ⟨?_, ?_, ?_⟩
    · obtain ⟨front, last, rfl⟩ := events.eq_nil_or_concat'.resolve_left some
      rw [written, if_pos live, Statistics.afterEach_concat, List.getLast?_concat, stats_recordAll]
      rfl
    · rw [shows, Entry.toList_statusText]
      rfl
    · rw [shows]
      rfl

/-- Ten transactions that are gone. -/
def tenGone : List (TimeOfDay × Event) :=
  List.replicate 10 (noon, .notFound (.fill 32 1))

theorem status_of_tenGone_never_shrinks :
    let screen := ((new (.new {} Screen.blank)).recordAll tenGone).reporter.sink
    let statuses := (reportOf {} tenGone).filterMap Entry.status?
    Sink.FailsForGood Screen.blank ∧ Display.isLive {} = true ∧ tenGone ≠ [] ∧
    (statuses.map Entry.statusText).Pairwise (fun earlier later => earlier.length ≤ later.length) ∧
    statuses.map (fun stats => (Entry.statusText stats).length) = List.replicate 9 49 ++ [50] ∧
    screen.cells = "🔔 Tx #10 | Swaps: 0 | ETH: 0 | Outras: 0 | MEV: 0".toList := by
  intro screen statuses
  have fails : Sink.FailsForGood Screen.blank := Screen.failsForGood .blank
  have some : tenGone ≠ [] := by decide
  obtain ⟨_, grows, _, last⟩ := status_lines_never_shrink fails {} tenGone
  obtain ⟨_, shown, _⟩ := last rfl some
  refine ⟨fails, rfl, some, grows, by decide +kernel, ?_⟩
  apply List.cons_injective
  refine shown.trans ?_
  decide +kernel

end Ledger

end MempoolWatch
