import MempoolWatch.Analysis
import MempoolWatch.Proofs.Rpc.Agreement
import MempoolWatch.Rpc.Client

/-! Answers with the status of a failure. A call is refused by such an answer if the body is no
envelope, with the status in the message, or if the envelope has an error, with the message of
that. An envelope without an error is taken for a success all the same: the status is not looked at,
and a null or missing result says that the node does not know the transaction. -/
namespace MempoolWatch

theorem analyze_event?_eq_notFound_iff {node : Node} {tagger : Tagger} {detectors : List Detector}
    {hash : Hash} :
    (analyze node tagger detectors hash).event? = some (.notFound hash) ↔
      node.transaction hash = .ok none := by
  unfold analyze
  rcases node.transaction hash with fault | _ | tx
  · simp
  · simp
  · cases (examineAll (tagger.classify tx) detectors).1 <;> simp

namespace Rpc

/-- What can be asked of a node. -/
inductive Question
  | transaction (hash : Hash)
  | gasPrice
  | blockNumber
  | poolStatus
  | poolContent

def faultOf? {α : Type} : Except Fault α → Option Fault
  | .error fault => some fault
  | .ok _ => none

namespace Question

def call : Question → Call
  | transaction hash => transactionCall hash
  | gasPrice => gasPriceCall
  | blockNumber => blockNumberCall
  | poolStatus => poolStatusCall
  | poolContent => poolContentCall

/-- What the question fails with when it gets this reply, if it does. -/
def fault? (reply : Reply) : Question → Option Fault
  | transaction hash => faultOf? (Rpc.transaction hash reply)
  | gasPrice => faultOf? (Rpc.gasPrice reply)
  | blockNumber => faultOf? (Rpc.blockNumber reply)
  | poolStatus => faultOf? (Rpc.poolStatus reply)
  | poolContent => faultOf? (Rpc.poolContent reply)

end Question

section Results

variable {α : Type} {call : Call} {read : Json.Source → Option α} {reply : Reply} {hash : Hash}
  {text : String}

/-- A result that cannot be read is another fault. -/
theorem faultOf?_decode_ne {method : String} {result : Json} :
    faultOf? (decode method read result) ≠ some (.rpc text) := by
  unfold decode
  cases read result.source <;> simp [faultOf?]

theorem faultOf?_bind_eq_rpc_iff {result : Except Fault Json} {next : Json → Except Fault α}
    (accepts : ∀ value, faultOf? (next value) ≠ some (.rpc text)) :
    faultOf? (result >>= next) = some (.rpc text) ↔ result = .error (.rpc text) := by
  cases result with
  | error fault => simp [faultOf?, bind, Except.bind]
  | ok value =>
    constructor
    · intro refused
      exact absurd refused (accepts value)
    · intro refused
      contradiction

theorem faultOf?_typed_eq_rpc_iff :
    faultOf? (typed call read reply) = some (.rpc text) ↔
      reply.result call.method = .error (.rpc text) :=
  faultOf?_bind_eq_rpc_iff fun _ => faultOf?_decode_ne

theorem faultOf?_bind_pure {β : Type} {outcome : Except Fault α} {keep : α → β} :
    faultOf? (outcome >>= fun value => pure (keep value)) = faultOf? outcome := by
  cases outcome <;> rfl

theorem faultOf?_transaction_eq_rpc_iff :
    faultOf? (transaction hash reply) = some (.rpc text) ↔
      reply.result (transactionCall hash).method = .error (.rpc text) := by
  apply faultOf?_bind_eq_rpc_iff
  intro value
  cases value.isNull with
  | true => exact nofun
  | false =>
    show faultOf? (decode _ Transaction.ofSource? value >>= fun tx => pure (some tx)) ≠ _
    rw [faultOf?_bind_pure]
    exact faultOf?_decode_ne

theorem transaction_eq_ok_none_iff :
    transaction hash reply = .ok none ↔
      ∃ result, reply.result (transactionCall hash).method = .ok result ∧
        result.isNull = true := by
  simp only [transaction]
  cases reply.result (transactionCall hash).method with
  | error fault => simp [bind, Except.bind]
  | ok result =>
    cases null : result.isNull with
    | true => simp [null, bind, Except.bind, pure, Except.pure]
    | false =>
      cases decoded : decode (transactionCall hash).method Transaction.ofSource? result <;>
        simp [null, decoded, bind, Except.bind, pure, Except.pure]

end Results

theorem Question.fault?_eq_rpc_iff {question : Question} {reply : Reply} {text : String} :
    question.fault? reply = some (.rpc text) ↔
      reply.result question.call.method = .error (.rpc text) := by
  cases question with
  | transaction hash => exact faultOf?_transaction_eq_rpc_iff
  | gasPrice | blockNumber | poolStatus | poolContent => exact faultOf?_typed_eq_rpc_iff

namespace Reply

variable {method body text : String} {status : Nat}

theorem result_eq_rpc_iff_of_failure (failure : isSuccess status = false) :
    (Reply.answered status body).result method = .error (.rpc text) ↔
      (Envelope.ofText? body = none ∧ text = method ++ " retornou HTTP " ++ statusText status) ∨
        ∃ result, Envelope.ofText? body = some ⟨result, some text⟩ := by
  rw [result]
  rcases Envelope.ofText? body with _ | ⟨value, _ | message⟩
  · simp [failure, eq_comm]
  · simp
  · simp

/-- Without an error in the envelope a failure is not told from a success. -/
theorem result_of_envelope {result : Json} (enveloped : Envelope.ofText? body = some ⟨result, none⟩) :
    (Reply.answered status body).result method = .ok result :=
  result_answered_eq_ok_iff.mpr enveloped

end Reply

/-- Whatever is asked, an answer with the status of a failure refuses it exactly when the body is no
envelope without an error. The refusal names the status, or repeats the message of the error. Else
the answer is a success; and if its result is null, a transaction that was asked for counts as
gone. -/
theorem failure_refuses_unless_envelope {status : Nat} (failure : isSuccess status = false)
    (body : String) :
    (∀ question : Question,
      (∃ text, question.fault? (.answered status body) = some (.rpc text)) ↔
        ∀ result, Envelope.ofText? body ≠ some ⟨result, none⟩) ∧
    (∀ (question : Question) text, question.fault? (.answered status body) = some (.rpc text) ↔
      (Envelope.ofText? body = none ∧
        text = question.call.method ++ " retornou HTTP " ++ statusText status) ∨
      ∃ result, Envelope.ofText? body = some ⟨result, some text⟩) ∧
    (∀ result, Envelope.ofText? body = some ⟨result, none⟩ →
      ∀ method, (Reply.answered status body).result method = .ok result) ∧
    ∀ hash,
      (transaction hash (.answered status body) = .ok none ↔
        ∃ result, Envelope.ofText? body = some ⟨result, none⟩ ∧ result.isNull = true) ∧
      ∀ tagger detectors,
        (analyze (Node.ofExchange fun _ => .answered status body) tagger detectors hash).event? =
            some (.notFound hash) ↔
          ∃ result, Envelope.ofText? body = some ⟨result, none⟩ ∧ result.isNull = true := by
  have refusals (question : Question) (text : String) :
      question.fault? (.answered status body) = some (.rpc text) ↔
        (Envelope.ofText? body = none ∧
          text = question.call.method ++ " retornou HTTP " ++ statusText status) ∨
        ∃ result, Envelope.ofText? body = some ⟨result, some text⟩ :=
    Question.fault?_eq_rpc_iff.trans (Reply.result_eq_rpc_iff_of_failure failure)
  have misses (hash : Hash) : transaction hash (.answered status body) = .ok none ↔
      ∃ result, Envelope.ofText? body = some ⟨result, none⟩ ∧ result.isNull = true := by
    simp only [transaction_eq_ok_none_iff, Reply.result_answered_eq_ok_iff]
  refine ⟨?_, refusals, fun result enveloped method => Reply.result_of_envelope enveloped, ?_⟩
  · intro question
    simp only [refusals]
    rcases Envelope.ofText? body with _ | ⟨value, _ | message⟩ <;> simp
  · intro hash
    refine ⟨misses hash, ?_⟩
    intro tagger detectors
    rw [analyze_event?_eq_notFound_iff]
    exact misses hash

theorem unavailable_refuses_gasPrice :
    isSuccess 503 = false ∧ Envelope.ofText? "" = none ∧
      Question.gasPrice.fault? (.answered 503 "") =
        some (.rpc "eth_gasPrice retornou HTTP 503 Service Unavailable") := by
  have failure : isSuccess 503 = false := by decide
  have empty : Envelope.ofText? "" = none := Option.isNone_iff_eq_none.mp (by decide +kernel)
  obtain ⟨_, refusals, _⟩ := failure_refuses_unless_envelope failure ""
  exact ⟨failure, empty, (refusals .gasPrice _).mpr (Or.inl ⟨empty, by decide⟩)⟩

/-- A node that refuses an answer for too many requests, with an empty object as the body, is
understood to say that the transaction is gone. -/
theorem refusal_taken_for_miss :
    isSuccess 429 = false ∧
      transaction (.fill 32 1) (.answered 429 "\x7b\x7d") = .ok none ∧
      ¬ ∀ (status : Nat) (body : String) (question : Question), isSuccess status = false →
        ∃ text, question.fault? (.answered status body) = some (.rpc text) := by
  have missed : transaction (.fill 32 1) (.answered 429 "\x7b\x7d") = .ok none := by
    decide +kernel
  refine ⟨by decide, missed, ?_⟩
  intro refuses
  obtain ⟨text, refused⟩ := refuses 429 "\x7b\x7d" (.transaction (.fill 32 1)) (by decide)
  rw [Question.fault?, missed] at refused
  contradiction

end Rpc

end MempoolWatch
