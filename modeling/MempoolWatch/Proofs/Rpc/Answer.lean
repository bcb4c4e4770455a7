import MempoolWatch.Proofs.Isolation
import MempoolWatch.Proofs.Rpc.Failure

/-! What an answer says about a transaction. The body of a successful answer is no envelope, has an
error, has no result, or has one that is a transaction or is not; the relation `Tells` has one case
for each, stated about the members of the body as they are written. A transaction counts as gone in
one of the cases only, and nothing else leads to this event of its analysis. -/
namespace MempoolWatch

namespace Detector

variable {classified : ClassifiedTx} {detectors : List Detector}

theorem examineAll_of_crash
    (crashes : ∃ detector ∈ detectors, detector.finds classified = .crash) :
    (examineAll classified detectors).1 = none := by
  induction detectors with
  | nil => simp at crashes
  | cons first rest ih =>
    by_cases crash : (first.examine classified).finding = .crash
    · simp [examineAll, crash]
    · have crashes : ∃ detector ∈ rest, detector.finds classified = .crash := by
        obtain ⟨detector, member, found⟩ := crashes
        rcases List.mem_cons.mp member with rfl | later
        · contradiction
        · exact ⟨detector, later, found⟩
      rw [examineAll_cons crash, ih crashes]
      rfl

end Detector

namespace Json.Source

theorem isNull_of_valueWithin? {room : Nat} {source : Source} {value : Json}
    (read : valueWithin? room source = some value) : value.isNull = true ↔ source = .null := by
  cases source with
  | null =>
    obtain rfl : Json.null = value := Option.some.inj read
    exact iff_of_true rfl rfl
  | bool flag =>
    obtain rfl : Json.bool flag = value := Option.some.inj read
    exact iff_of_false nofun nofun
  | number numeral =>
    obtain ⟨number, _, rfl⟩ := Option.map_eq_some_iff.mp read
    cases number <;> exact iff_of_false nofun nofun
  | string literal =>
    obtain ⟨text, _, rfl⟩ := Option.map_eq_some_iff.mp read
    exact iff_of_false nofun nofun
  | array items =>
    cases room with
    | zero => cases read
    | succ room =>
      obtain ⟨values, _, rfl⟩ := Option.map_eq_some_iff.mp read
      exact iff_of_false nofun nofun
  | object members =>
    cases room with
    | zero => cases read
    | succ room =>
      obtain ⟨values, _, rfl⟩ := Option.map_eq_some_iff.mp read
      exact iff_of_false nofun nofun

theorem isNull_eq_false {room : Nat} {source : Source} {value : Json}
    (read : valueWithin? room source = some value) (present : source ≠ .null) :
    value.isNull = false :=
  eq_false_of_ne_true fun null => present ((isNull_of_valueWithin? read).mp null)

theorem nullable?_of_ne_null {α : Type} {read : Source → Option α} {source : Source}
    (present : source ≠ .null) : nullable? read source = (read source).map some := by
  cases source with
  | null => contradiction
  | bool | number | string | array | object => rfl

end Json.Source

namespace Rpc

open Json (Source)

/-- The member is not there, or it is null. -/
def Lacks (member : Option Source) : Prop :=
  member = none ∨ member = some .null

namespace Envelope

/-- A body is an envelope with this result and this error, either of which may be missing: it is a
record of the two, its result has a value, and its error is null or has a message. -/
structure Given (body : String) (result error : Option Source) : Prop where
  record : ∃ source field, Source.ofText? body = some source ∧
    source.record? ["result", "error"] = some field ∧ field "result" = result ∧
      field "error" = error
  valued : ∀ source, result = some source →
    ∃ value, source.valueWithin? (Json.depthLimit - 1) = some value
  worded : ∀ source, error = some source → source ≠ .null →
    ∃ message, error? source = some message

end Envelope

/-- What a body says about a transaction that was asked for. -/
inductive Tells (body : String) : Except Fault (Option Transaction) → Prop
  | malformed (unread : ∀ result error, ¬ Envelope.Given body result error) :
      Tells body (.error (.decoding "Resposta inválida para eth_getTransactionByHash: "))
  | refused {result : Option Source} {error : Source} {message : String}
      (given : Envelope.Given body result (some error)) (flawed : error ≠ .null)
      (worded : Envelope.error? error = some message) : Tells body (.error (.rpc message))
  | gone {result error : Option Source} (given : Envelope.Given body result error)
      (flawless : Lacks error) (empty : Lacks result) : Tells body (.ok none)
  | undecodable {result : Source} {error : Option Source} {value : Json}
      (given : Envelope.Given body (some result) error) (flawless : Lacks error)
      (present : result ≠ .null) (valued : result.valueWithin? (Json.depthLimit - 1) = some value)
      (unread : Transaction.ofSource? value.source = none) :
      Tells body
        (.error (.decoding "Falha ao decodificar resultado de eth_getTransactionByHash: "))
  | found {result : Source} {error : Option Source} {value : Json} {tx : Transaction}
      (given : Envelope.Given body (some result) error) (flawless : Lacks error)
      (present : result ≠ .null) (valued : result.valueWithin? (Json.depthLimit - 1) = some value)
      (read : Transaction.ofSource? value.source = some tx) : Tells body (.ok (some tx))

namespace Envelope

variable {body : String} {result error : Option Source}

theorem optional?_of_lacks {member : Option Source} {room : Nat} (lacks : Lacks member) :
    Json.optional? member .null (Source.valueWithin? room) = some .null := by
  obtain rfl | rfl := lacks
  · rfl
  · cases room <;> rfl

theorem lacks_or_given (member : Option Source) :
    Lacks member ∨ ∃ source, member = some source ∧ source ≠ .null := by
  rcases member with _ | source
  · exact Or.inl (Or.inl rfl)
  · by_cases null : source = .null
    · exact Or.inl (Or.inr (congrArg some null))
    · exact Or.inr ⟨source, rfl, null⟩

theorem Given.error_cases (given : Given body result error) :
    Lacks error ∨ ∃ source message, error = some source ∧ source ≠ .null ∧
      error? source = some message := by
  obtain lacks | ⟨source, rfl, present⟩ := lacks_or_given error
  · exact Or.inl lacks
  · obtain ⟨message, worded⟩ := given.worded source rfl present
    exact Or.inr ⟨source, message, rfl, present, worded⟩

theorem Given.result_cases (given : Given body result error) :
    Lacks result ∨ ∃ source value, result = some source ∧ source ≠ .null ∧
      source.valueWithin? (Json.depthLimit - 1) = some value := by
  obtain lacks | ⟨source, rfl, present⟩ := lacks_or_given result
  · exact Or.inl lacks
  · obtain ⟨value, valued⟩ := given.valued source rfl
    exact Or.inr ⟨source, value, rfl, present, valued⟩

/-- What is read as an envelope is one. -/
theorem given_of_ofText? {envelope : Envelope} (read : ofText? body = some envelope) :
    ∃ result error, Given body result error := by
  simp only [ofText?, ofSource?, Option.bind_eq_bind, Option.bind_eq_some_iff] at read
  obtain ⟨source, written, field, record, value, valued, text, worded, _⟩ := read
  refine ⟨field "result", field "error", ⟨source, field, written, record, rfl, rfl⟩, ?_, ?_⟩
  · intro member given
    rw [given] at valued
    exact ⟨value, valued⟩
  · intro member given present
    rw [given, Json.optional?, Source.nullable?_of_ne_null present] at worded
    obtain ⟨message, worded, _⟩ := Option.map_eq_some_iff.mp worded
    exact ⟨message, worded⟩

theorem Given.ofText?_eq (given : Given body result error) {value : Json} {message : Option String}
    (valued : Json.optional? result .null (Source.valueWithin? (Json.depthLimit - 1)) = some value)
    (worded : Json.optional? error none (Source.nullable? error?) = some message) :
    ofText? body = some ⟨value, message⟩ := by
  obtain ⟨source, field, written, record, rfl, rfl⟩ := given.record
  simp only [ofText?, ofSource?, written, record, valued, worded, Option.bind_eq_bind,
    Option.bind_some, Option.pure_def]

/-- An envelope that lacks an error counts as its result. -/
theorem Given.ofText?_of_lacks (given : Given body result error) (flawless : Lacks error)
    {value : Json}
    (valued : Json.optional? result .null (Source.valueWithin? (Json.depthLimit - 1)) =
      some value) : ofText? body = some ⟨value, none⟩ :=
  given.ofText?_eq valued (Json.optional?_nullable?_eq_none_iff.mpr flawless)

/-- An error counts whatever the result is. -/
theorem Given.ofText?_of_error {error : Source} {message : String}
    (given : Given body result (some error)) (flawed : error ≠ .null)
    (worded : error? error = some message) : ∃ value, ofText? body = some ⟨value, some message⟩ := by
  have read : Json.optional? (some error) none (Source.nullable? error?) = some (some message) := by
    rw [Json.optional?, Source.nullable?_of_ne_null flawed, worded]
    rfl
  obtain empty | ⟨source, value, rfl, _, valued⟩ := given.result_cases
  · exact ⟨.null, given.ofText?_eq (optional?_of_lacks empty) read⟩
  · exact ⟨value, given.ofText?_eq valued read⟩

/-- What is not read as an envelope is none. -/
theorem ofText?_eq_none_iff :
    ofText? body = none ↔ ∀ result error, ¬ Given body result error := by
  constructor
  · intro unread result error given
    have read : ∃ envelope, ofText? body = some envelope := by
      obtain flawless | ⟨source, message, rfl, flawed, worded⟩ := given.error_cases
      · obtain empty | ⟨source, value, rfl, _, valued⟩ := given.result_cases
        · exact ⟨_, given.ofText?_of_lacks flawless (optional?_of_lacks empty)⟩
        · exact ⟨_, given.ofText?_of_lacks flawless valued⟩
      · obtain ⟨value, read⟩ := given.ofText?_of_error flawed worded
        exact ⟨_, read⟩
    obtain ⟨envelope, read⟩ := read
    rw [unread] at read
    cases read
  · intro none
    cases read : ofText? body with
    | none => rfl
    | some envelope =>
      obtain ⟨result, error, given⟩ := given_of_ofText? read
      exact absurd given (none result error)

end Envelope

/-- A result that is not null is read as a transaction. -/
theorem transaction_of_result {reply : Reply} {hash : Hash} {result : Json}
    (answered : reply.result (transactionCall hash).method = .ok result)
    (present : result.isNull = false) :
    transaction hash reply =
      (decode (transactionCall hash).method Transaction.ofSource? result).map some := by
  rw [transaction, answered]
  show (if result.isNull = true then _ else _) = _
  rw [present]
  cases decode (transactionCall hash).method Transaction.ofSource? result <;> rfl

namespace Tells

variable {body : String} {outcome : Except Fault (Option Transaction)}

theorem transaction_eq (tells : Tells body outcome) {status : Nat}
    (success : isSuccess status = true) (hash : Hash) :
    transaction hash (.answered status body) = outcome := by
  cases tells with
  | malformed unread =>
    have none := Envelope.ofText?_eq_none_iff.mpr unread
    simp only [transaction, Reply.result, none, success, if_true]
    rfl
  | refused given flawed worded =>
    have refused : (Reply.answered status body).result (transactionCall hash).method = _ :=
      (Reply.result_answered_eq_rpc_iff success).mpr (given.ofText?_of_error flawed worded)
    rw [transaction, refused]
    rfl
  | gone given flawless empty =>
    have enveloped := given.ofText?_of_lacks flawless (Envelope.optional?_of_lacks empty)
    rw [transaction, Reply.result_of_envelope enveloped]
    rfl
  | undecodable given flawless present valued unread =>
    rw [transaction_of_result (Reply.result_of_envelope (given.ofText?_of_lacks flawless valued))
      (Source.isNull_eq_false valued present), decode, unread]
    rfl
  | found given flawless present valued read =>
    rw [transaction_of_result (Reply.result_of_envelope (given.ofText?_of_lacks flawless valued))
      (Source.isNull_eq_false valued present), decode, read]
    rfl

/-- Every body has a meaning. -/
theorem exists_tells (body : String) : ∃ outcome, Tells body outcome := by
  by_cases enveloped : ∃ result error, Envelope.Given body result error
  · obtain ⟨result, error, given⟩ := enveloped
    obtain flawless | ⟨source, message, rfl, flawed, worded⟩ := given.error_cases
    · obtain empty | ⟨source, value, rfl, present, valued⟩ := given.result_cases
      · exact ⟨_, .gone given flawless empty⟩
      · cases read : Transaction.ofSource? value.source with
        | none => exact ⟨_, .undecodable given flawless present valued read⟩
        | some tx => exact ⟨_, .found given flawless present valued read⟩
    · exact ⟨_, .refused given flawed worded⟩
  · simp only [not_exists] at enveloped
    exact ⟨_, .malformed enveloped⟩

end Tells

section Events

variable {node : Node} {tagger : Tagger} {detectors : List Detector} {hash : Hash}

theorem analyze_event?_eq_failed_iff {reason : String} :
    (analyze node tagger detectors hash).event? = some (.failed hash reason) ↔
      ∃ cause, node.transaction hash = .error cause ∧ reason = cause.message := by
  rcases answer : node.transaction hash with cause | _ | tx
  · simp [analyze_of_refused answer, eq_comm]
  · simp [analyze_of_gone answer]
  · simp [analyze, answer]

theorem analyze_event?_eq_analyzed_iff {report : TxReport} :
    (analyze node tagger detectors hash).event? = some (.analyzed report) ↔
      ∃ tx, node.transaction hash = .ok (some tx) ∧
        (∀ detector ∈ detectors, detector.finds (tagger.classify tx) ≠ .crash) ∧
        report = Detector.report detectors (tagger.classify tx) := by
  rcases answer : node.transaction hash with cause | _ | tx
  · simp [analyze_of_refused answer]
  · simp [analyze_of_gone answer]
  by_cases steady : ∀ detector ∈ detectors, detector.finds (tagger.classify tx) ≠ .crash
  · rw [Detector.analyze_of_steady answer steady]
    constructor
    · rintro ⟨rfl⟩
      exact ⟨tx, rfl, steady, rfl⟩
    · rintro ⟨_, ⟨rfl⟩, _, rfl⟩
      rfl
  · have crashed : (examineAll (tagger.classify tx) detectors).1 = none := by
      apply Detector.examineAll_of_crash
      simpa using steady
    simp only [analyze, answer, crashed]
    constructor
    · intro analyzed
      cases analyzed
    · rintro ⟨_, ⟨rfl⟩, unshaken, _⟩
      exact absurd unshaken steady

end Events

/-- The body of a successful answer tells of a transaction what `Tells` says and nothing else. No
envelope is a fault of decoding; in an envelope an error that is there counts whatever the result
is; without one, a result that is missing or null says that the transaction is gone, and any
other is a transaction or a fault of decoding. The event of the analysis is the one for what the
body tells. -/
theorem body_tells_transaction {status : Nat} (success : isSuccess status = true) (hash : Hash)
    (body : String) :
    (∀ outcome, transaction hash (.answered status body) = outcome ↔ Tells body outcome) ∧
    (Envelope.ofText? body = none ↔ ∀ result error, ¬ Envelope.Given body result error) ∧
    (∀ result error, Envelope.Given body result error → ¬ Lacks error →
      ∃ message, transaction hash (.answered status body) = .error (.rpc message)) ∧
    (transaction hash (.answered status body) = .ok none ↔
      ∃ result error, Envelope.Given body result error ∧ Lacks error ∧ Lacks result) ∧
    ∀ exchange tagger detectors, exchange (transactionCall hash) = .answered status body →
      let event? := (analyze (Node.ofExchange exchange) tagger detectors hash).event?
      (event? = some (.notFound hash) ↔ Tells body (.ok none)) ∧
      (∀ reason, event? = some (.failed hash reason) ↔
        ∃ cause, Tells body (.error cause) ∧ reason = cause.message) ∧
      ∀ report, event? = some (.analyzed report) ↔
        ∃ tx, Tells body (.ok (some tx)) ∧
          (∀ detector ∈ detectors, detector.finds (tagger.classify tx) ≠ .crash) ∧
          report = Detector.report detectors (tagger.classify tx) := by
  have told (outcome : Except Fault (Option Transaction)) :
      transaction hash (.answered status body) = outcome ↔ Tells body outcome := by
    constructor
    · rintro rfl
      obtain ⟨outcome, tells⟩ := Tells.exists_tells body
      rw [tells.transaction_eq success hash]
      exact tells
    · intro tells
      exact tells.transaction_eq success hash
  refine ⟨told, Envelope.ofText?_eq_none_iff, ?_, ?_, ?_⟩
  · intro result error given flawed
    obtain flawless | ⟨source, message, rfl, present, worded⟩ := given.error_cases
    · exact absurd flawless flawed
    · exact ⟨message, (told _).mpr (.refused given present worded)⟩
  · rw [told]
    constructor
    · intro tells
      cases tells with
      | gone given flawless empty => exact ⟨_, _, given, flawless, empty⟩
    · rintro ⟨result, error, given, flawless, empty⟩
      exact .gone given flawless empty
  · intro exchange tagger detectors answered
    have asked (outcome : Except Fault (Option Transaction)) :
        (Node.ofExchange exchange).transaction hash = outcome ↔ Tells body outcome := by
      rw [← told, ← answered]
      rfl
    simp only [analyze_event?_eq_notFound_iff, analyze_event?_eq_failed_iff,
      analyze_event?_eq_analyzed_iff, asked, implies_true, and_self]

/-- The error counts beside a result that is there, and the analysis fails with its message. -/
theorem error_beside_result_refuses :
    let body :=
      "\x7b\"result\":\x7b\x7d,\"error\":\x7b\"code\":-32000,\"message\":\"busy\"\x7d\x7d"
    isSuccess 200 = true ∧ Tells body (.error (.rpc "busy")) ∧
      ∀ tagger detectors,
        (analyze (Node.ofExchange fun _ => .answered 200 body) tagger detectors
          (.fill 32 1)).event? = some (.failed (.fill 32 1) "Erro de RPC: busy") := by
  intro body
  have success : isSuccess 200 = true := by decide
  obtain ⟨told, _, _, _, events⟩ := body_tells_transaction success (.fill 32 1) body
  have tells : Tells body (.error (.rpc "busy")) := (told _).mp (by decide +kernel)
  refine ⟨success, tells, ?_⟩
  intro tagger detectors
  obtain ⟨_, fails, _⟩ := events (fun _ => .answered 200 body) tagger detectors rfl
  exact (fails _).mpr ⟨.rpc "busy", tells, rfl⟩

end Rpc

end MempoolWatch
