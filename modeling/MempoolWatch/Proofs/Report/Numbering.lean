import MempoolWatch.Proofs.Pipeline.Statistics
import MempoolWatch.Proofs.Report.StatusLine

/-! The numbers in a report. Lines are numbered by the analysed transactions and blocks by those
with opportunities, both from one on and in the order of recording, so that the last numbers are
the counters of the summary. -/
namespace MempoolWatch

namespace Report

/-- The text consists of these lines. -/
def HasLines (text : String) (lines : List String) : Prop :=
  text = String.join (lines.map (· ++ "\n"))

/-- What a block says of one opportunity. -/
def opportunityLines (usdPrice : Float) (found : Opportunity) : List String :=
  ["", "   📊 Tipo: " ++ found.kind.name,
    "   💰 Lucro estimado: " ++ Decimal.fixed 6 found.netProfit ++ " ETH (~$" ++
      Decimal.fixed 2 (found.netProfit * usdPrice) ++ ")",
    "   📈 Confiança: " ++ Decimal.fixed 0 (found.confidence * 100.0) ++ "%"] ++
  (if found.details.isEmpty then [] else ["   📋 Detalhes:"]) ++
  found.details.map fun (name, value) => "      - " ++ name ++ ": " ++ value.display

/-- The number of a block, the time, the hash of the transaction and then all opportunities. -/
def blockLines (number : Nat) (time : TimeOfDay) (usdPrice : Float) (report : TxReport) :
    List String :=
  ["", String.ofList (List.replicate 80 '='),
    "🔍 OPORTUNIDADE MEV #" ++ toString number ++ " [" ++ time.text ++ "]",
    "   Transação: " ++ report.classified.tx.hash.text,
    "   " ++ String.ofList (List.replicate 76 '-')] ++
  report.opportunities.flatMap (opportunityLines usdPrice) ++
  ["", "   ⚠️  Estimativa heurística, uso apenas educacional",
    String.ofList (List.replicate 80 '=')]

/-- The counters of a summary with their labels. -/
def labelledCounters (stats : Statistics) : List (String × Nat) :=
  [("Notificações recebidas", stats.notifications), ("Transações analisadas", stats.analyzed),
    ("- Swaps", stats.swaps), ("- Transferências de ETH", stats.ethTransfers),
    ("- Liquidações", stats.liquidations), ("- Operações de liquidez", stats.liquidityOps),
    ("- Desconhecidas", stats.unknown), ("Não encontradas (já mineradas)", stats.notFound),
    ("Erros de análise", stats.analysisErrors), ("Erros de detectores", stats.detectorErrors)]

/-- The counters of a summary, under its heading. -/
def counterLines (stats : Statistics) : List String :=
  ["", "📊 Resumo:"] ++
  (labelledCounters stats).map (fun (label, count) => "   " ++ label ++ ": " ++ toString count) ++
  ["   Oportunidades MEV: " ++ toString stats.opportunities ++ " em " ++
    toString stats.withOpportunities ++ " transação(ões)"]

def rateLine (label : String) (rate : Float) : String :=
  "   " ++ label ++ ": " ++ Decimal.fixed 2 (rate * 100.0) ++ "%"

/-- The counters, and then the rates that there are. -/
def summaryLines (stats : Statistics) : List String :=
  counterLines stats ++ stats.detectionRate?.toList.map (rateLine "Taxa de detecção") ++
    stats.swapDetectionRate?.toList.map (rateLine "Taxa entre swaps")

theorem HasLines.append {first second : String} {lines others : List String}
    (before : HasLines first lines) (behind : HasLines second others) :
    HasLines (first ++ second) (lines ++ others) := by
  rw [HasLines, List.map_append, String.join_append, ← before, ← behind]

/-- Each part of a list has its lines. -/
theorem HasLines.join {α : Type} {write : α → String} {lines : α → List String}
    (each : ∀ item, HasLines (write item) (lines item)) (items : List α) :
    HasLines (String.join (items.map write)) (items.flatMap lines) := by
  induction items with
  | nil => rfl
  | cons item rest ih =>
    rw [List.map_cons, String.join_cons, List.flatMap_cons]
    exact (each item).append ih

theorem hasLines_line (text : String) : HasLines (Entry.line text) [text] := by
  rw [HasLines, List.map_singleton, String.join_cons, String.join_nil, String.append_empty]
  rfl

namespace Entry

/-- The number of a block. -/
def blockNumber? : Entry → Option Nat
  | opportunities number .. => some number
  | _ => none

/-- The index of a line for a transaction. -/
def lineIndex? : Entry → Option Nat
  | transaction index _ => some index
  | _ => none

def isBlock (entry : Entry) : Bool := entry.blockNumber?.isSome

def isLine (entry : Entry) : Bool := entry.lineIndex?.isSome

def isSummary : Entry → Bool
  | summary _ => true
  | _ => false

theorem exists_transaction_eq (index : Nat) (report : TxReport) :
    ∃ rest, text (.transaction index report) = "📦 Tx #" ++ toString index ++ " " ++
      report.classified.tx.hash.text ++ " → " ++ rest := by
  refine ⟨recipientText report.classified.tx ++ " | "
    ++ Decimal.fixed 6 report.classified.tx.value.toNative ++ " ETH | "
    ++ functionText report.classified ++ " | " ++ report.classified.tags.text ++ " | "
    ++ toString report.opportunities.length ++ " oportunidade(s)" ++ "\n", ?_⟩
  simp only [text, transactionText, line, String.append_assoc]

theorem hasLines_details (details : Details) : HasLines (detailsText details)
    ((if details.isEmpty then [] else ["   📋 Detalhes:"]) ++
      details.map fun (name, value) => "      - " ++ name ++ ": " ++ value.display) := by
  unfold detailsText
  split
  · next empty =>
    rw [List.isEmpty_iff.mp empty]
    rfl
  · refine (hasLines_line _).append ?_
    rw [HasLines, List.map_map]
    rfl

theorem hasLines_opportunity (usdPrice : Float) (found : Opportunity) :
    HasLines (opportunityText usdPrice found) (opportunityLines usdPrice found) := by
  have kind := (hasLines_line "").append (hasLines_line ("   📊 Tipo: " ++ found.kind.name))
  have profit := kind.append (hasLines_line ("   💰 Lucro estimado: " ++
    Decimal.fixed 6 found.netProfit ++ " ETH (~$" ++
    Decimal.fixed 2 (found.netProfit * usdPrice) ++ ")"))
  have confidence := profit.append (hasLines_line ("   📈 Confiança: " ++
    Decimal.fixed 0 (found.confidence * 100.0) ++ "%"))
  rw [opportunityLines, List.append_assoc]
  exact confidence.append (hasLines_details found.details)

/-- A block gives its number, the hash of the transaction and then all opportunities in order. -/
theorem hasLines_opportunities (number : Nat) (time : TimeOfDay) (usdPrice : Float)
    (report : TxReport) :
    HasLines (text (.opportunities number time usdPrice report))
      (blockLines number time usdPrice report) := by
  have listed := HasLines.join (hasLines_opportunity usdPrice) report.opportunities
  have header : HasLines (line "" ++ line (repeated 80 '=') ++
      line ("🔍 OPORTUNIDADE MEV #" ++ toString number ++ " [" ++ time.text ++ "]") ++
      line ("   Transação: " ++ report.classified.tx.hash.text) ++
      line ("   " ++ repeated 76 '-')) _ :=
    ((((hasLines_line _).append (hasLines_line _)).append (hasLines_line _)).append
      (hasLines_line _)).append (hasLines_line _)
  have footer : HasLines (line "" ++ line "   ⚠️  Estimativa heurística, uso apenas educacional"
      ++ line (repeated 80 '=')) _ :=
    ((hasLines_line _).append (hasLines_line _)).append (hasLines_line _)
  have block := (header.append listed).append footer
  rw [← String.append_assoc, ← String.append_assoc] at block
  exact block

theorem hasLines_rate (label : String) (rate : Option Float) :
    HasLines (rateText label rate) (rate.toList.map (rateLine label)) := by
  cases rate with
  | none => rfl
  | some rate => exact hasLines_line _

theorem hasLines_summary (stats : Statistics) :
    HasLines (text (.summary stats)) (summaryLines stats) := by
  have counters : HasLines (String.join ((counterLines stats).map (· ++ "\n")))
      (counterLines stats) := rfl
  have whole := (counters.append (hasLines_rate "Taxa de detecção" stats.detectionRate?)).append
    (hasLines_rate "Taxa entre swaps" stats.swapDetectionRate?)
  refine Eq.trans ?_ whole
  simp only [text, summaryText, counterText, counterLines, labelledCounters, line, List.map_cons,
    List.map_nil, List.cons_append, List.nil_append, String.join_cons,
    String.join_nil, String.append_assoc, String.append_empty]

end Entry

/-- The report of an event, with the time of its recording. -/
def analyzed? : TimeOfDay × Event → Option (TimeOfDay × TxReport)
  | (time, .analyzed report) => some (time, report)
  | (_, .notFound _) | (_, .failed _ _) => none

/-- The report of an event, if it found opportunities. -/
def found? (recorded : TimeOfDay × Event) : Option (TimeOfDay × TxReport) :=
  (analyzed? recorded).filter fun (_, report) => ! report.opportunities.isEmpty

/-- A kind of entries that a display shows: one for every event that is picked, numbered by the
counter of these events. -/
structure Numbering (display : Display) where
  number? : Entry → Option Nat
  counter : Statistics → Nat
  pick : TimeOfDay × Event → Option (TimeOfDay × TxReport)
  entry : (TimeOfDay × TxReport) × Nat → Entry
  counter_start : counter {} = 0
  counts : ∀ stats time event,
    counter (stats.record event) = counter stats + (pick (time, event)).toList.length
  number?_entry : ∀ picked, number? (entry picked) = some picked.2
  number?_status : ∀ stats, number? (.status stats) = none
  filter_summary : ∀ shown stats,
    ((Entry.summary stats).apart shown).filter (fun entry => (number? entry).isSome) = []
  filter_entriesAbout : ∀ shown stats time event,
    (Ledger.entriesAbout display shown stats time event).filter
        (fun entry => (number? entry).isSome) =
      (pick (time, event)).toList.map fun picked => entry (picked, counter stats)

namespace Numbering

variable {display : Display} (numbering : Numbering display)

/-- The entries of the kind. -/
def kind (entry : Entry) : Bool := (numbering.number? entry).isSome

theorem counter_recordAll {σ : Type} [Sink σ] (ledger : Ledger σ)
    (events : List (TimeOfDay × Event)) :
    numbering.counter (ledger.recordAll events).stats =
      numbering.counter ledger.stats + (events.filterMap numbering.pick).length := by
  induction events generalizing ledger with
  | nil => rfl
  | cons recorded rest ih =>
    obtain ⟨time, event⟩ := recorded
    have first : numbering.counter (ledger.record time event).stats =
        numbering.counter ledger.stats + (numbering.pick (time, event)).toList.length :=
      numbering.counts _ _ _
    calc numbering.counter ((ledger.record time event).recordAll rest).stats
      _ = numbering.counter ledger.stats + (numbering.pick (time, event)).toList.length
          + (rest.filterMap numbering.pick).length := by rw [ih, first]
      _ = numbering.counter ledger.stats
          + (((time, event) :: rest).filterMap numbering.pick).length := by
        rw [List.filterMap_cons]
        cases numbering.pick (time, event) with
        | none => rfl
        | some picked => exact Nat.add_right_comm _ _ _

theorem filter_record (ledger : Ledger Transcript) (shows : ledger.reporter.display = display)
    (time : TimeOfDay) (event : Event) :
    (ledger.record time event).reporter.sink.filter numbering.kind =
      ledger.reporter.sink.filter numbering.kind ++ (numbering.pick (time, event)).toList.map
        fun picked => numbering.entry (picked, numbering.counter (ledger.stats.record event)) := by
  have about := numbering.filter_entriesAbout ledger.reporter.statusShown
    (ledger.stats.record event) time event
  rw [Ledger.sink_record, shows, List.filter_append, List.filter_append]
  congr 1
  split
  · rw [List.filter_singleton, kind, numbering.number?_status]
    exact (List.append_nil _).trans about
  · exact (List.append_nil _).trans about

/-- The entries of the kind are numbered from the counter on, in the order of recording. -/
theorem filter_recordAll (ledger : Ledger Transcript) (shows : ledger.reporter.display = display)
    (events : List (TimeOfDay × Event)) :
    (ledger.recordAll events).reporter.sink.filter numbering.kind =
      ledger.reporter.sink.filter numbering.kind ++
        ((events.filterMap numbering.pick).zipIdx (numbering.counter ledger.stats + 1)).map
          numbering.entry := by
  induction events generalizing ledger with
  | nil => exact (List.append_nil _).symm
  | cons recorded rest ih =>
    obtain ⟨time, event⟩ := recorded
    have later := ih (ledger.record time event) (by rw [Ledger.display_record, shows])
    rw [numbering.filter_record ledger shows] at later
    refine later.trans ?_
    have counted : numbering.counter (ledger.record time event).stats =
        numbering.counter (ledger.stats.record event) := rfl
    rw [List.append_assoc, counted, numbering.counts _ time, List.filterMap_cons]
    cases numbering.pick (time, event) with
    | none => rfl
    | some picked => rw [List.zipIdx_cons]; rfl

theorem filter_reportOf (events : List (TimeOfDay × Event)) :
    (Ledger.reportOf display events).filter numbering.kind =
      ((events.filterMap numbering.pick).zipIdx 1).map numbering.entry := by
  have recorded := numbering.filter_recordAll (.new (.new display [])) rfl events
  have start : numbering.counter {} = 0 := numbering.counter_start
  rw [Ledger.reportOf, Ledger.sink_finish, List.filter_append]
  refine (congrArg₂ (· ++ ·) recorded (numbering.filter_summary _ _)).trans ?_
  rw [List.append_nil]
  show [] ++ List.map _ (List.zipIdx _ (numbering.counter {} + 1)) = _
  rw [start]
  rfl

/-- There are as many entries of the kind as the counter says, numbered from one on. -/
theorem numbers_reportOf (events : List (TimeOfDay × Event)) :
    (Ledger.reportOf display events).filterMap numbering.number? =
      List.range' 1 (numbering.counter (Ledger.transcribed display events).stats) := by
  have counted := numbering.counter_recordAll (.new (.new display ([] : Transcript))) events
  have start : numbering.counter {} = 0 := numbering.counter_start
  have every : (Ledger.transcribed display events).stats =
      ((Ledger.new (.new display ([] : Transcript))).recordAll events).stats := rfl
  have kinds : (Ledger.reportOf display events).filterMap numbering.number? =
      ((Ledger.reportOf display events).filter numbering.kind).filterMap numbering.number? := by
    rw [List.filterMap_filter]
    apply List.filterMap_congr
    intro entry _
    unfold kind
    cases numbering.number? entry <;> rfl
  have numbered : numbering.number? ∘ numbering.entry = some ∘ Prod.snd :=
    funext numbering.number?_entry
  rw [kinds, numbering.filter_reportOf, List.filterMap_map, numbered, List.filterMap_eq_map,
    List.zipIdx_map_snd, every, counted]
  show _ = List.range' 1 (numbering.counter {} + _)
  rw [start, Nat.zero_add]

/-- Blocks, one for every transaction with opportunities. -/
def blocks (display : Display) : Numbering display where
  number? := Entry.blockNumber?
  counter := Statistics.withOpportunities
  pick := found?
  entry := fun ((time, report), number) => .opportunities number time display.usdPrice report
  counter_start := rfl
  counts := by
    intro stats time event
    cases event with
    | analyzed report =>
      show _ + (! report.opportunities.isEmpty).toNat = _ + (Option.filter _ (some _)).toList.length
      cases empty : report.opportunities.isEmpty <;> simp [Option.filter, empty]
    | notFound hash | failed hash reason => rfl
  number?_entry := fun _ => rfl
  number?_status := fun _ => rfl
  filter_summary := by
    intro shown stats
    cases shown <;> rfl
  filter_entriesAbout := by
    intro shown stats time event
    cases event with
    | analyzed report =>
      simp only [Ledger.entriesAbout, found?, analyzed?]
      cases empty : report.opportunities.isEmpty <;> cases display.showAll <;> cases shown <;>
        simp [Option.filter, empty, Entry.apart, Entry.blockNumber?]
    | notFound hash | failed hash reason => rfl

/-- Lines, one for every analysed transaction, if the display shows them. -/
def lines {display : Display} (all : display.showAll = true) : Numbering display where
  number? := Entry.lineIndex?
  counter := Statistics.analyzed
  pick := analyzed?
  entry := fun ((_, report), index) => .transaction index report
  counter_start := rfl
  counts := by
    intro stats time event
    cases event <;> rfl
  number?_entry := fun _ => rfl
  number?_status := fun _ => rfl
  filter_summary := by
    intro shown stats
    cases shown <;> rfl
  filter_entriesAbout := by
    intro shown stats time event
    cases event with
    | analyzed report =>
      simp only [Ledger.entriesAbout, analyzed?, all]
      cases report.opportunities.isEmpty <;> cases shown <;>
        simp [Entry.apart, Entry.lineIndex?]
    | notFound hash | failed hash reason => rfl

end Numbering

end Report

namespace Ledger

open Report

theorem isSummary_of_mem_entriesAbout {display : Display} {shown : Bool} {stats : Statistics}
    {time : TimeOfDay} {event : Event} {entry : Entry}
    (member : entry ∈ entriesAbout display shown stats time event) : entry.isSummary = false := by
  have none : (entriesAbout display shown stats time event).all (! ·.isSummary) = true := by
    cases event with
    | analyzed report =>
      simp only [entriesAbout]
      cases display.showAll <;> cases report.opportunities.isEmpty <;> cases shown <;> rfl
    | notFound hash | failed hash reason => rfl
  simpa using List.all_eq_true.mp none entry member

theorem isSummary_of_mem_recordAll {ledger : Ledger Transcript}
    (none : ∀ entry ∈ ledger.reporter.sink, entry.isSummary = false)
    (events : List (TimeOfDay × Event)) :
    ∀ entry ∈ (ledger.recordAll events).reporter.sink, entry.isSummary = false := by
  induction events generalizing ledger with
  | nil => exact none
  | cons recorded rest ih =>
    obtain ⟨time, event⟩ := recorded
    apply ih
    intro entry member
    rw [sink_record, List.mem_append, List.mem_append] at member
    obtain old | about | status := member
    · exact none entry old
    · exact isSummary_of_mem_entriesAbout about
    · split at status
      · rw [List.mem_singleton.mp status]
        rfl
      · cases status

/-- The summary is the last entry and the only one of its kind, and has the counters of the
ledger. -/
theorem summary_last (display : Display) (events : List (TimeOfDay × Event)) :
    ∃ before, reportOf display events = before ++ [.summary (transcribed display events).stats] ∧
      ∀ entry ∈ before, entry.isSummary = false := by
  have none : ∀ entry ∈ (transcribed display events).reporter.sink, entry.isSummary = false :=
    isSummary_of_mem_recordAll (fun _ member => absurd member List.not_mem_nil) events
  rw [reportOf, sink_finish]
  cases (transcribed display events).reporter.statusShown with
  | true =>
    refine ⟨(transcribed display events).reporter.sink ++ [.blanking], List.append_cons _ _ _, ?_⟩
    intro entry member
    obtain inside | last := List.mem_append.mp member
    · exact none entry inside
    · rw [List.mem_singleton.mp last]
      rfl
  | false => exact ⟨_, rfl, none⟩

/-- With all transactions shown, the block of an event directly follows its line. -/
theorem line_before_block {display : Display} (all : display.showAll = true)
    {earlier later : List (TimeOfDay × Event)} {time : TimeOfDay} {report : TxReport}
    (found : report.opportunities ≠ []) :
    [Entry.transaction ((earlier.filterMap analyzed?).length + 1) report,
        .opportunities ((earlier.filterMap found?).length + 1) time display.usdPrice report] <:+:
      reportOf display (earlier ++ (time, .analyzed report) :: later) := by
  have shows : (transcribed display earlier).reporter.display = display :=
    display_recordAll _ earlier
  have unshown := (valid_transcribed display earlier).shown_of_showAll all
  have index : ((transcribed display earlier).stats.record (.analyzed report)).analyzed =
      (earlier.filterMap analyzed?).length + 1 := by
    have counted := (Numbering.lines all).counter_recordAll
      (.new (.new display ([] : Transcript))) earlier
    exact congrArg (· + 1) (counted.trans (Nat.zero_add _))
  have number : ((transcribed display earlier).stats.record (.analyzed report)).withOpportunities =
      (earlier.filterMap found?).length + 1 := by
    have counted := (Numbering.blocks display).counter_recordAll
      (.new (.new display ([] : Transcript))) earlier
    have one := (Numbering.blocks display).counts (transcribed display earlier).stats time
      (.analyzed report)
    refine one.trans (congrArg₂ (· + ·) (counted.trans (Nat.zero_add _)) ?_)
    simp [Numbering.blocks, found?, analyzed?, Option.filter, found]
  have recorded : [Entry.transaction ((earlier.filterMap analyzed?).length + 1) report,
      .opportunities ((earlier.filterMap found?).length + 1) time display.usdPrice report] <:+:
        ((transcribed display earlier).record time (.analyzed report)).reporter.sink := by
    rw [sink_record, shows, unshown, ← List.append_assoc]
    simp only [entriesAbout, all, if_true, index, number, List.isEmpty_iff, found, if_false]
    exact List.infix_append _ _ _
  have kept := sink_prefix_recordAll ((transcribed display earlier).record time (.analyzed report))
    later
  have split : transcribed display (earlier ++ (time, .analyzed report) :: later) =
      ((transcribed display earlier).record time (.analyzed report)).recordAll later :=
    recordAll_append _ earlier _
  rw [reportOf, sink_finish, split]
  exact (recorded.trans kept.isInfix).trans (List.prefix_append _ _).isInfix

end Ledger

/-- A report on events, from the first of them on, that ends with these counters. -/
structure Report.NumbersAll (display : Display) (events : List (TimeOfDay × Event))
    (stats : Statistics) (report : List Entry) : Prop where
  /-- A block for every transaction with opportunities, in the order of recording. -/
  blocks : report.filter Entry.isBlock = ((events.filterMap found?).zipIdx 1).map
    fun ((time, found), number) => .opportunities number time display.usdPrice found
  block_lines : ∀ number time price found,
    HasLines (Entry.text (.opportunities number time price found))
      (blockLines number time price found)
  /-- A line for every analysed transaction, if all of them are shown. -/
  lines : report.filter Entry.isLine =
    if display.showAll then ((events.filterMap analyzed?).zipIdx 1).map
      (fun ((_, found), index) => .transaction index found) else []
  line_text : ∀ index found, ∃ rest, Entry.text (.transaction index found) =
    "📦 Tx #" ++ toString index ++ " " ++ found.classified.tx.hash.text ++ " → " ++ rest
  line_before_block : display.showAll = true → ∀ earlier time found later,
    events = earlier ++ (time, .analyzed found) :: later → found.opportunities ≠ [] →
    [.transaction ((earlier.filterMap analyzed?).length + 1) found,
      .opportunities ((earlier.filterMap found?).length + 1) time display.usdPrice found] <:+:
        report
  summary_last : ∃ before, report = before ++ [.summary stats] ∧
    ∀ entry ∈ before, entry.isSummary = false
  summary_lines : HasLines (Entry.text (.summary stats)) (summaryLines stats)
  numbers : report.filterMap Entry.blockNumber? = List.range' 1 stats.withOpportunities
  indexes : display.showAll = true →
    report.filterMap Entry.lineIndex? = List.range' 1 stats.analyzed

namespace Ledger

open Report

/-- The report of a fresh ledger, whatever events it records before it is finished and whatever
sink that never fails it goes to. Its blocks are those of the analysed transactions with
opportunities, in the order of recording and numbered from one on; each gives its number, the hash
of the transaction and all opportunities in order. Its lines, if all transactions are shown, are
those of the analysed transactions, indexed likewise, each directly before its block; otherwise
there is none. The summary comes last, with the counters of the ledger, so that the last number
and the last index are the numbers of transactions with opportunities and of analysed ones. -/
theorem report_numbered_and_complete {σ : Type} [Sink σ] {sink : σ}
    (unfailing : Sink.Unfailing sink) (display : Display) (events : List (TimeOfDay × Event)) :
    let ledger := ((new (.new display sink)).recordAll events).finish
    let report := reportOf display events
    ledger.reporter.sink = Sink.putAll sink report ∧
      NumbersAll display events ledger.stats report := by
  intro ledger report
  have delivered : (new (.new display sink)).recordAll events =
      (transcribed display events).deliver sink := recordAll_new unfailing display events
  have stats : ledger.stats = (transcribed display events).stats :=
    congrArg Ledger.stats delivered
  constructor
  · show ((new (.new display sink)).recordAll events).finish.reporter.sink = _
    rw [delivered, finish_deliver unfailing]
    rfl
  rw [stats]
  exact {
    blocks := (Numbering.blocks display).filter_reportOf events
    block_lines := Entry.hasLines_opportunities
    lines := by
      cases all : display.showAll with
      | true => exact (Numbering.lines all).filter_reportOf events
      | false =>
        apply List.filter_eq_nil_iff.mpr
        intro entry member
        have valid := valid_reportOf display events
        cases entry with
        | transaction index found => exact absurd member (valid.transaction_not_mem all index found)
        | _ => nofun
    line_text := Entry.exists_transaction_eq
    line_before_block := by
      rintro all earlier time found later rfl opportunities
      exact line_before_block all opportunities
    summary_last := summary_last display events
    summary_lines := Entry.hasLines_summary _
    numbers := (Numbering.blocks display).numbers_reportOf events
    indexes := fun all => (Numbering.lines all).numbers_reportOf events }

/-- An opportunity with a detail. -/
def notedProfit : Opportunity :=
  { smallProfit with kind := .sandwich, netProfit := 1, details := [("note", .text "caro")] }

/-- Between swaps without and with an opportunity, a miss and an error. -/
def mixedEvents : List (TimeOfDay × Event) :=
  [(noon, .analyzed (swapReport [])), (noon, .notFound (.fill 32 1)),
    (noon, .failed (.fill 32 2) "timeout"), (noon, .analyzed (swapReport [smallProfit])),
    (noon, .analyzed (swapReport [smallProfit, notedProfit]))]

theorem report_of_mixedEvents_numbered :
    let display : Display := { showAll := true }
    let report := reportOf display mixedEvents
    let ledger := ((new (.new display (Output.empty none))).recordAll mixedEvents).finish
    Sink.Unfailing (Output.empty none) ∧ display.showAll = true ∧
      ledger.reporter.sink = Sink.putAll (Output.empty none) report ∧
      report.filterMap Entry.blockNumber? = [1, 2] ∧
      report.filterMap Entry.lineIndex? = [1, 2, 3] ∧
      [.transaction 2 (swapReport [smallProfit]),
        .opportunities 1 noon 2000.0 (swapReport [smallProfit])] <:+: report ∧
      HasLines (Entry.text (.opportunities 2 noon 2000.0 (swapReport [smallProfit, notedProfit])))
        ["", String.ofList (List.replicate 80 '='), "🔍 OPORTUNIDADE MEV #2 [12:00:00.000]",
          "   Transação: 0x0707070707070707070707070707070707070707070707070707070707070707",
          "   " ++ String.ofList (List.replicate 76 '-'),
          "", "   📊 Tipo: BACK_RUN", "   💰 Lucro estimado: 0.250000 ETH (~$500.00)",
          "   📈 Confiança: 50%",
          "", "   📊 Tipo: SANDWICH", "   💰 Lucro estimado: 1.000000 ETH (~$2000.00)",
          "   📈 Confiança: 50%", "   📋 Detalhes:", "      - note: caro",
          "", "   ⚠️  Estimativa heurística, uso apenas educacional",
          String.ofList (List.replicate 80 '=')] ∧
      HasLines (Entry.text (.summary ledger.stats))
        ["", "📊 Resumo:", "   Notificações recebidas: 5",
          "   Transações analisadas: 3", "   - Swaps: 3", "   - Transferências de ETH: 0",
          "   - Liquidações: 0", "   - Operações de liquidez: 0", "   - Desconhecidas: 0",
          "   Não encontradas (já mineradas): 1", "   Erros de análise: 1",
          "   Erros de detectores: 0", "   Oportunidades MEV: 3 em 2 transação(ões)",
          "   Taxa de detecção: 100.00%", "   Taxa entre swaps: 100.00%"] := by
  intro display report ledger
  have unfailing : Sink.Unfailing (Output.empty none) := Output.unfailing_unlimited []
  obtain ⟨sink, numbered⟩ := report_numbered_and_complete unfailing display mixedEvents
  have found : ledger.stats.withOpportunities = 2 := rfl
  have analyzed : ledger.stats.analyzed = 3 := rfl
  have numbers := numbered.numbers
  rw [found] at numbers
  have indexes := numbered.indexes rfl
  rw [analyzed] at indexes
  have adjacent := numbered.line_before_block rfl (mixedEvents.take 3) noon
    (swapReport [smallProfit]) (mixedEvents.drop 4) rfl (List.cons_ne_nil _ _)
  have block := numbered.block_lines 2 noon 2000.0 (swapReport [smallProfit, notedProfit])
  refine ⟨unfailing, rfl, sink, numbers, indexes, adjacent, ?_, ?_⟩
  · refine block.trans ?_
    decide +kernel
  · refine numbered.summary_lines.trans ?_
    decide +kernel

end Ledger

end MempoolWatch
