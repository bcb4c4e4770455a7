import MempoolWatch.Proofs.Abi.Reading
import MempoolWatch.Proofs.Classification

/-! Calldata of any kind. The selector alone decides whether a call is recognised. If the data
behind it can be read, the arguments have the declared types, so that the amount stands where the
table says; and bytes that follow change nothing. -/
namespace MempoolWatch

open Abi

namespace KnownCall

theorem find?_eq_none_iff {selector : Selector} :
    find? selector = none ↔ ∀ call ∈ all, call.selector ≠ selector := by
  simp [find?]

end KnownCall

theorem AmountField.Carried.eq_none_iff {arguments : List Value} {field : AmountField}
    {amount : Option Word} (carried : field.Carried arguments amount) :
    amount = none ↔ field = .nativeValue := by
  cases carried with
  | nativeValue => exact iff_of_true rfl rfl
  | param | tupleField | largestOf => exact iff_of_false nofun nofun

namespace DecodedCall

/-- The calldata name a recognised call, and arguments of it can be read behind the selector. -/
structure Carries (calldata : Bytes) (call : KnownCall) (arguments : List Value) : Prop where
  known : call ∈ KnownCall.all
  named : calldata.take 4 = call.selector.bytes
  read : Abi.decode call.params (calldata.drop 4) = some arguments

variable {calldata : Bytes} {call : KnownCall} {arguments : List Value}

theorem ofCalldata?_of_named (known : call ∈ KnownCall.all)
    (named : calldata.take 4 = call.selector.bytes) :
    ofCalldata? calldata = some (ofArguments call (calldata.drop 4)) := by
  rw [ofCalldata?, named, FixedBytes.ofBytes?_bytes, Option.bind_eq_bind, Option.bind_some,
    KnownCall.find?_selector known]
  rfl

theorem ofCalldata?_eq_none_iff :
    ofCalldata? calldata = none ↔
      calldata.length < 4 ∨ ∀ call ∈ KnownCall.all, calldata.take 4 ≠ call.selector.bytes := by
  constructor
  · intro unknown
    by_contra! called
    obtain ⟨_, call, known, named⟩ := called
    rw [ofCalldata?_of_named known named] at unknown
    contradiction
  · intro unnamed
    rw [ofCalldata?, Option.bind_eq_bind, Option.bind_eq_none_iff]
    intro selector selected
    rw [FixedBytes.ofBytes?, Option.dite_none_right_eq_some] at selected
    obtain ⟨size, same⟩ := selected
    cases same
    have unknown : KnownCall.find? ⟨calldata.take 4, size⟩ = none := by
      rw [KnownCall.find?_eq_none_iff]
      intro call known same
      obtain short | other := unnamed
      · rw [List.length_take] at size
        omega
      · exact other call known (congrArg FixedBytes.bytes same).symm
    rw [unknown]
    rfl

namespace Carries

theorem ofCalldata?_eq (carries : Carries calldata call arguments) :
    ofCalldata? calldata = some ⟨call, arguments, amountOf arguments call.amount⟩ := by
  rw [ofCalldata?_of_named carries.known carries.named, ofArguments, carries.read]

theorem haveTypes (carries : Carries calldata call arguments) :
    HaveTypes arguments call.params :=
  haveTypes_of_decode carries.read

theorem four_le_length (carries : Carries calldata call arguments) : 4 ≤ calldata.length := by
  have size := congrArg List.length carries.named
  rw [List.length_take, call.selector.length_eq] at size
  omega

theorem append (carries : Carries calldata call arguments) (padding : Bytes) :
    Carries (calldata ++ padding) call arguments := by
  have size := carries.four_le_length
  refine ⟨carries.known, ?_, ?_⟩
  · rw [List.take_append_of_le_length size]
    exact carries.named
  · rw [List.drop_append_of_le_length size]
    exact decode_of_isPrefix (List.prefix_append _ _) carries.read

theorem selector?_eq (carries : Carries calldata call arguments) {tx : Transaction}
    (input : tx.input = calldata) : tx.selector? = some call.selector := by
  rw [Transaction.selector?, input, carries.named, FixedBytes.ofBytes?_bytes]

end Carries

/-- Calldata are decoded exactly when their first four bytes are the selector of a call of the
table, and then to that call. Either the data behind the selector cannot be read, and there are
neither arguments nor an amount, or the arguments have the declared types and the amount is the
one that they carry where the table says, and there is none only for calls that have it in the
value of the transaction. -/
theorem calldata_read_as_declared (calldata : Bytes) :
    (ofCalldata? calldata = none ↔
      calldata.length < 4 ∨ ∀ call ∈ KnownCall.all, calldata.take 4 ≠ call.selector.bytes) ∧
    ∀ call ∈ KnownCall.all, calldata.take 4 = call.selector.bytes →
      (Abi.decode call.params (calldata.drop 4) = none ∧
        ofCalldata? calldata = some ⟨call, [], none⟩) ∨
      ∃ arguments amount, Abi.decode call.params (calldata.drop 4) = some arguments ∧
        ofCalldata? calldata = some ⟨call, arguments, amount⟩ ∧
        HaveTypes arguments call.params ∧ call.amount.Carried arguments amount ∧
        (amount = none ↔ call.amount = .nativeValue) := by
  refine ⟨ofCalldata?_eq_none_iff, ?_⟩
  intro call known named
  cases read : Abi.decode call.params (calldata.drop 4) with
  | none =>
    left
    refine ⟨rfl, ?_⟩
    rw [ofCalldata?_of_named known named, ofArguments, read]
  | some arguments =>
    right
    have carries : Carries calldata call arguments := ⟨known, named, read⟩
    have carried := carried_amountOf carries.haveTypes (KnownCall.pointsAtUint call known)
    exact ⟨arguments, _, rfl, carries.ofCalldata?_eq, carries.haveTypes, carried,
      carried.eq_none_iff⟩

/-- The call of a pair. -/
def pairSwapCall : KnownCall := KnownCall.all[10]

/-- Five and nine units, no recipient, and bytes whose offset leads back to the five units, which
are then their length. -/
def overlappingSwap : Bytes :=
  pairSwapCall.selector.bytes ++ (wordOf 5 ++ wordOf 9 ++ wordOf 0 ++ wordOf 0)

def overlappingArguments : List Value :=
  [.uint 5, .uint 9, .address (.fill 20 0), .bytes [0, 0, 0, 0, 0]]

set_option maxRecDepth 1000 in
theorem overlappingSwap_carries : Carries overlappingSwap pairSwapCall overlappingArguments :=
  ⟨List.getElem_mem _, rfl, rfl⟩

theorem overlappingSwap_read_as_declared :
    pairSwapCall ∈ KnownCall.all ∧
      overlappingSwap.take 4 = pairSwapCall.selector.bytes ∧
      HaveTypes overlappingArguments pairSwapCall.params ∧
      ofCalldata? overlappingSwap = some ⟨pairSwapCall, overlappingArguments, some 9⟩ := by
  have carries := overlappingSwap_carries
  obtain ⟨_, declared⟩ := calldata_read_as_declared overlappingSwap
  obtain ⟨unread, _⟩ | ⟨arguments, amount, found, decoded, typed, carried, _⟩ :=
    declared pairSwapCall carries.known carries.named
  · exact absurd (unread.symm.trans carries.read) nofun
  · obtain rfl : arguments = overlappingArguments :=
      Option.some.inj (found.symm.trans carries.read)
    have carried : AmountField.Carried overlappingArguments (.largestOf [0, 1]) amount := carried
    obtain _ | _ | _ | @⟨_, words, largest, each, member, maximal⟩ := carried
    have words_eq : words = [5, 9] := by
      rcases words with _ | ⟨a, _ | ⟨b, _ | ⟨c, rest⟩⟩⟩ <;> simp_all [overlappingArguments]
    subst words_eq
    have largest_eq : largest = 9 := by
      rcases List.mem_pair.mp member with rfl | rfl
      · exact absurd (maximal 9 (by simp)) (by decide)
      · rfl
    subst largest_eq
    exact ⟨carries.known, carries.named, typed, decoded⟩

/-- Whatever follows calldata that can be read, they are decoded to the same call, arguments and
amount. So transactions whose calldata differ only by bytes at the end get the same tags, whatever
entries there are, and the same function and amount. -/
theorem padding_keeps_decoded_call (carries : Carries calldata call arguments) (padding : Bytes) :
    ofCalldata? (calldata ++ padding) = ofCalldata? calldata ∧
    (∃ amount, ofCalldata? calldata = some ⟨call, arguments, amount⟩) ∧
    ∀ (tagger : Tagger) (tx padded : Transaction), tx.input = calldata →
      padded.input = calldata ++ padding →
      tagger.tags padded = tagger.tags tx ∧
      (tagger.classify padded).functionName? = some call.name ∧
      (tagger.classify tx).functionName? = some call.name ∧
      (tagger.classify padded).call.bind amount = (tagger.classify tx).call.bind amount := by
  have longer := carries.append padding
  have same : ofCalldata? (calldata ++ padding) = ofCalldata? calldata := by
    rw [longer.ofCalldata?_eq, carries.ofCalldata?_eq]
  refine ⟨same, ⟨_, carries.ofCalldata?_eq⟩, ?_⟩
  intro tagger tx padded input paddedInput
  refine ⟨?_, ?_, ?_, ?_⟩
  · exact Tagger.tags_of_selector? (carries.selector?_eq input) (longer.selector?_eq paddedInput)
  · rw [ClassifiedTx.functionName?, Tagger.classify, paddedInput, longer.ofCalldata?_eq]
    rfl
  · rw [ClassifiedTx.functionName?, Tagger.classify, input, carries.ofCalldata?_eq]
    rfl
  · rw [Tagger.classify, Tagger.classify, input, paddedInput, same]

/-- Sends a unit along with the calldata. -/
def payableCall (input : Bytes) : Transaction where
  hash := .fill 32 1
  sender := .fill 20 1
  recipient := some (.fill 20 2)
  value := 1
  input := input
  gas := 21000
  gasPrice := none

theorem padding_keeps_overlappingSwap :
    Carries overlappingSwap pairSwapCall overlappingArguments ∧
      ofCalldata? (overlappingSwap ++ [0xff]) = ofCalldata? overlappingSwap ∧
      Tagger.standard.tags (payableCall (overlappingSwap ++ [0xff])) =
        Tagger.standard.tags (payableCall overlappingSwap) ∧
      (Tagger.standard.classify (payableCall (overlappingSwap ++ [0xff]))).functionName? =
        some "swap" := by
  obtain ⟨same, _, transactions⟩ := padding_keeps_decoded_call overlappingSwap_carries [0xff]
  obtain ⟨tags, name, _⟩ := transactions .standard (payableCall overlappingSwap)
    (payableCall (overlappingSwap ++ [0xff])) rfl rfl
  exact ⟨overlappingSwap_carries, same, tags, name⟩

end DecodedCall

end MempoolWatch
