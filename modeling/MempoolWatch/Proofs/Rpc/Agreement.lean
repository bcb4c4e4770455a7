import MempoolWatch.Proofs.Json.Values
import MempoolWatch.Rpc.Reply
import MempoolWatch.Subscription.Frame

/-! A reply is read twice, as the answer to a call and as a text on a subscription. The first
reading asks for a result and an error and passes over the other members unread; the second one
takes the whole text as a value and looks at the members one by one. They differ on an error
that is null, which is none to the first and a rejection to the second, and on a text in which a
member passed over has no value. -/
namespace MempoolWatch.Rpc

open Json (Literal Source)
open Subscription (Frame)

theorem Envelope.fields_of_ofSource? {members : List (Literal × Source)} {envelope : Envelope}
    (read : ofSource? (.object members) = some envelope) :
    Json.optional? (Source.member? members "result") .null
        (Source.valueWithin? (Json.depthLimit - 1)) = some envelope.result ∧
      Json.optional? (Source.member? members "error") none (Source.nullable? error?) =
        some envelope.error := by
  simp only [ofSource?, Option.bind_eq_bind, Option.bind_eq_some_iff, Option.pure_def,
    Option.some.injEq] at read
  obtain ⟨field, record, result, result_eq, error, error_eq, rfl⟩ := read
  constructor
  · rw [← Source.field_of_record? record (by decide)]
    exact result_eq
  · rw [← Source.field_of_record? record (by decide)]
    exact error_eq

theorem Envelope.message_of_error? {error : List (Literal × Source)} {message : String}
    (read : error? (.object error) = some message) :
    (Source.member? error "message").bind Source.string? = some message := by
  simp only [error?, Option.bind_eq_bind, Option.bind_eq_some_iff] at read
  obtain ⟨field, record, _, _, message_eq⟩ := read
  rw [← Source.field_of_record? record (by decide)]
  exact message_eq

namespace Reply

variable {method body : String} {status : Nat}

theorem result_answered_eq_ok_iff {result : Json} :
    (Reply.answered status body).result method = .ok result ↔
      Envelope.ofText? body = some ⟨result, none⟩ := by
  rw [Reply.result]
  rcases Envelope.ofText? body with _ | ⟨other, _ | message⟩
  · cases isSuccess status <;> simp
  · simp
  · simp

theorem result_answered_eq_rpc_iff (success : isSuccess status = true) {message : String} :
    (Reply.answered status body).result method = .error (.rpc message) ↔
      ∃ result, Envelope.ofText? body = some ⟨result, some message⟩ := by
  rw [Reply.result]
  rcases Envelope.ofText? body with _ | ⟨other, _ | message⟩
  · simp [success]
  · simp
  · simp

end Reply

/-- A text that is an object without parameters. -/
structure Response where
  text : String
  members : List (Literal × Source)
  written : Source.ofText? text = some (.object members)
  unparameterized : ∀ member ∈ members, member.1 ≠ some "params"

namespace Response

variable (response : Response) {method : String}

def member? (name : String) : Option Source :=
  Source.member? response.members name

/-- The `id` as a natural below 2^64. -/
def id? : Option Nat :=
  (response.member? "id").bind Source.natural?

/-- What the text means as the answer to a call. -/
def answer (method : String) : Except Fault Json :=
  (Reply.answered 200 response.text).result method

/-- What the text means on a subscription. -/
def frame : Frame :=
  .ofText response.text

/-- Every member has a name and a value, also those that an answer does not look at. -/
def Readable : Prop :=
  ∀ member ∈ response.members, member.1.isSome = true ∧
    (Source.valueWithin? (Json.depthLimit - 1) member.2).isSome = true

/-- A success is no rejection, and it confirms a result that is a text to the call of this
number; an error that comes with a message is a rejection with this message. -/
structure Agree (method : String) : Prop where
  success : ∀ result, response.answer method = .ok result →
    (∀ id message, response.frame ≠ .rejection id message) ∧
      ∀ id name, result = .string name → response.id? = some id →
        response.frame = .confirmation id name
  failure : ∀ error message, response.member? "error" = some (.object error) →
    response.answer method = .error (.rpc message) →
      ∃ id, response.frame = .rejection id message

theorem ofText?_text :
    Json.ofText? response.text = Source.valueWithin? Json.depthLimit (.object response.members) := by
  rw [Json.ofText?, response.written]
  rfl

theorem envelope_text :
    Envelope.ofText? response.text = Envelope.ofSource? (.object response.members) := by
  rw [Envelope.ofText?, response.written]
  rfl

theorem readable_iff : response.Readable ↔ (Json.ofText? response.text).isSome = true := by
  rw [ofText?_text, Json.depthLimit, Source.valueWithin?, Option.isSome_map]
  exact Source.isSome_membersWithin?.symm

variable {response}

theorem fields_of_answer {result : Json} (answered : response.answer method = .ok result) :
    Json.optional? (response.member? "result") .null
        (Source.valueWithin? (Json.depthLimit - 1)) = some result ∧
      (response.member? "error" = none ∨ response.member? "error" = some .null) := by
  have envelope := Reply.result_answered_eq_ok_iff.mp answered
  rw [envelope_text] at envelope
  obtain ⟨result_eq, error_eq⟩ := Envelope.fields_of_ofSource? envelope
  exact ⟨result_eq, Json.optional?_nullable?_eq_none_iff.mp error_eq⟩

theorem text_of_answer {name : String} (answered : response.answer method = .ok (.string name)) :
    (response.member? "result").bind Source.string? = some name := by
  obtain ⟨result_eq, _⟩ := fields_of_answer answered
  cases given : response.member? "result" with
  | none =>
    rw [given] at result_eq
    cases result_eq
  | some source =>
    rw [given] at result_eq
    rw [Option.bind_some, Source.valueWithin?_eq_some_string_iff.mp result_eq]
    rfl

theorem message_of_answer {error : List (Literal × Source)} {message : String}
    (given : response.member? "error" = some (.object error))
    (answered : response.answer method = .error (.rpc message)) :
    (Source.member? error "message").bind Source.string? = some message := by
  obtain ⟨result, envelope⟩ := (Reply.result_answered_eq_rpc_iff (by decide)).mp answered
  rw [envelope_text] at envelope
  obtain ⟨_, error_eq⟩ := Envelope.fields_of_ofSource? envelope
  have error_eq : Json.optional? (response.member? "error") none
      (Source.nullable? Envelope.error?) = some (some message) := error_eq
  rw [given] at error_eq
  obtain ⟨_, read, same⟩ := Option.map_eq_some_iff.mp error_eq
  rw [← Option.some.inj same]
  exact Envelope.message_of_error? read

theorem Readable.value (readable : response.Readable) :
    ∃ value, response.frame = Frame.ofReply value ∧
      ∀ name, value.get? name =
        (response.member? name).bind (Source.valueWithin? (Json.depthLimit - 1)) := by
  obtain ⟨value, read⟩ := Option.isSome_iff_exists.mp (response.readable_iff.mp readable)
  have members : ∀ name, value.get? name =
      (response.member? name).bind (Source.valueWithin? (Json.depthLimit - 1)) :=
    Source.get?_of_valueWithin? (response.ofText?_text.symm.trans read)
  refine ⟨value, ?_, members⟩
  have params : value.get? "params" = none := by
    rw [members, member?, Source.member?_eq_none_iff.mpr response.unparameterized]
    rfl
  rw [frame, Frame.ofText, read]
  show Frame.ofJson value = Frame.ofReply value
  rw [Frame.ofJson, params]

theorem frame_of_unreadable (unreadable : ¬ response.Readable) :
    response.frame = .ignored .notJson := by
  rw [readable_iff, Option.not_isSome_iff_eq_none] at unreadable
  rw [frame, Frame.ofText, unreadable]

theorem id?_of_value {value : Json}
    (members : ∀ name, value.get? name =
      (response.member? name).bind (Source.valueWithin? (Json.depthLimit - 1))) :
    (value.get? "id").bind Json.natural? = response.id? := by
  rw [members, Option.bind_assoc]
  simp only [Source.valueWithin?_bind_natural?]
  rfl

theorem frame_of_error (readable : response.Readable) {source : Source}
    (given : response.member? "error" = some source) :
    ∃ error, Source.valueWithin? (Json.depthLimit - 1) source = some error ∧
      response.frame = .rejection response.id? (Frame.errorMessage error) := by
  obtain ⟨error, read⟩ :=
    Option.isSome_iff_exists.mp (readable _ (Source.mem_of_member? given)).2
  obtain ⟨value, frame_eq, members⟩ := readable.value
  refine ⟨error, read, ?_⟩
  rw [frame_eq, Frame.ofReply, members "error", given, Option.bind_some, read,
    id?_of_value members]

theorem frame_of_no_error (readable : response.Readable)
    (absent : response.member? "error" = none) :
    response.frame =
      match response.id?, (response.member? "result").bind Source.string? with
      | some id, some name => .confirmation id name
      | _, _ => .ignored .noId := by
  obtain ⟨value, frame_eq, members⟩ := readable.value
  have name_eq : (value.get? "result").bind Json.string? =
      (response.member? "result").bind Source.string? := by
    rw [members, Option.bind_assoc]
    simp only [Source.valueWithin?_bind_string?]
  rw [frame_eq, Frame.ofReply, members "error", absent, Option.bind_none, id?_of_value members,
    ← name_eq]
  cases response.id? with
  | none => rfl
  | some id =>
    rcases value.get? "result" with _ | _ | _ | _ | _ | _ | _ | _ <;> rfl

theorem frame_of_error_object (readable : response.Readable) {error : List (Literal × Source)}
    (given : response.member? "error" = some (.object error)) :
    response.frame = .rejection response.id?
      (((Source.member? error "message").bind Source.string?).getD "erro sem mensagem") := by
  obtain ⟨value, read, frame_eq⟩ := frame_of_error readable given
  rw [frame_eq, Frame.errorMessage, Source.get?_of_valueWithin? read, Option.bind_assoc]
  simp only [Source.valueWithin?_bind_string?]

theorem frame_of_error_list (readable : response.Readable) {items : List Source}
    (given : response.member? "error" = some (.array items)) :
    response.frame = .rejection response.id? "erro sem mensagem" := by
  obtain ⟨value, read, frame_eq⟩ := frame_of_error readable given
  obtain ⟨values, _, rfl⟩ := Option.map_eq_some_iff.mp read
  exact frame_eq

theorem agree_of_readable (readable : response.Readable) :
    response.Agree method ↔
      ∀ result, response.answer method = .ok result → response.member? "error" = none := by
  constructor
  · intro agree result answered
    obtain absent | null := (fields_of_answer answered).2
    · exact absent
    -- A null error is no error of an answer, but it is a member of the value.
    · obtain ⟨error, _, rejected⟩ := frame_of_error readable null
      exact absurd rejected ((agree.success result answered).1 _ _)
  · intro absent
    constructor
    · intro result answered
      have frame_eq := frame_of_no_error readable (absent result answered)
      constructor
      · intro id message rejected
        rw [frame_eq] at rejected
        split at rejected <;> cases rejected
      · rintro id name rfl numbered
        rw [frame_eq, numbered, text_of_answer answered]
    · intro error message given answered
      have rejected := frame_of_error_object readable given
      rw [message_of_answer given answered] at rejected
      exact ⟨_, rejected⟩

theorem agree_of_unreadable (unreadable : ¬ response.Readable) :
    response.Agree method ↔
      (∀ name, response.answer method = .ok (.string name) → response.id? = none) ∧
        ∀ error message, response.member? "error" = some (.object error) →
          response.answer method ≠ .error (.rpc message) := by
  have frame_eq := frame_of_unreadable unreadable
  constructor
  · intro agree
    constructor
    · intro name answered
      rw [Option.eq_none_iff_forall_ne_some]
      intro id numbered
      have confirmed := (agree.success _ answered).2 id name rfl numbered
      rw [frame_eq] at confirmed
      cases confirmed
    · intro error message given answered
      obtain ⟨id, rejected⟩ := agree.failure error message given answered
      rw [frame_eq] at rejected
      cases rejected
  · rintro ⟨unnumbered, unsurfaced⟩
    constructor
    · intro result answered
      constructor
      · intro id message rejected
        rw [frame_eq] at rejected
        cases rejected
      · rintro id name rfl numbered
        rw [unnumbered name answered] at numbered
        cases numbered
    · intro error message given answered
      exact absurd answered (unsurfaced error message given)

/-- With a value for every member the readings differ only on a success with an error, which is
null then. Without one the subscription hears nothing, and they differ on every confirmation and
on every error object. An answer also takes a list of code and message for an error object; the
rejection does not have this message. -/
theorem readings_agree_iff (response : Response) (method : String) :
    (response.Agree method ↔
      (response.Readable → ∀ result, response.answer method = .ok result →
        response.member? "error" = none) ∧
      (¬ response.Readable →
        (∀ name, response.answer method = .ok (.string name) → response.id? = none) ∧
          ∀ error message, response.member? "error" = some (.object error) →
            response.answer method ≠ .error (.rpc message))) ∧
    (response.Readable → ∀ items, response.member? "error" = some (.array items) →
      response.frame = .rejection response.id? "erro sem mensagem") := by
  refine ⟨?_, fun readable items => frame_of_error_list readable⟩
  by_cases readable : response.Readable
  · rw [agree_of_readable readable]
    exact ⟨fun absent => ⟨fun _ => absent, fun unreadable => absurd readable unreadable⟩,
      fun split => split.1 readable⟩
  · rw [agree_of_unreadable readable]
    exact ⟨fun silent => ⟨fun read => absurd read readable, fun _ => silent⟩,
      fun split => split.2 readable⟩

/-- A confirmation whose error is null. -/
def nullError : Response where
  text := "\x7b\"id\":1,\"result\":\"0x1\",\"error\":null\x7d"
  members := [(some "id", .number (some (.integer 1))), (some "result", .string (some "0x1")),
    (some "error", .null)]
  written := by
    have plain : Json.Plain (.object [("id", .integer 1), ("result", .string "0x1"),
        ("error", .null)]) :=
      .member (.natural (by decide)) (.member .string (.member .null .emptyObject))
    exact plain.ofText?_eq (by decide +kernel)
  unparameterized := by simp

theorem null_error_divides_readings :
    nullError.answer "eth_subscribe" = .ok (.string "0x1") ∧ nullError.id? = some 1 ∧
      nullError.frame = .rejection (some 1) "erro sem mensagem" ∧
      ¬ nullError.Agree "eth_subscribe" := by
  have answered : nullError.answer "eth_subscribe" = .ok (.string "0x1") :=
    Reply.result_answered_eq_ok_iff.mpr nullError.envelope_text
  have rejected : nullError.frame = .rejection (some 1) "erro sem mensagem" := by
    decide +kernel
  refine ⟨answered, rfl, rejected, ?_⟩
  intro agree
  exact (agree.success _ answered).1 _ _ rejected

/-- A confirmation with a member that nobody asks for. -/
def plainConfirmation : Response where
  text := "\x7b\"jsonrpc\":\"2.0\",\"id\":1,\"result\":\"0x1\"\x7d"
  members := [(some "jsonrpc", .string (some "2.0")), (some "id", .number (some (.integer 1))),
    (some "result", .string (some "0x1"))]
  written := by
    have plain : Json.Plain (.object [("jsonrpc", .string "2.0"), ("id", .integer 1),
        ("result", .string "0x1")]) :=
      .member .string (.member (.natural (by decide)) (.member .string .emptyObject))
    exact plain.ofText?_eq (by decide +kernel)
  unparameterized := by simp

theorem readings_of_plainConfirmation :
    plainConfirmation.answer "eth_subscribe" = .ok (.string "0x1") ∧
      plainConfirmation.frame = .confirmation 1 "0x1" := by
  have answered : plainConfirmation.answer "eth_subscribe" = .ok (.string "0x1") :=
    Reply.result_answered_eq_ok_iff.mpr plainConfirmation.envelope_text
  have readable : plainConfirmation.Readable := by
    simp [Readable, plainConfirmation, Source.valueWithin?]
  have agree : plainConfirmation.Agree "eth_subscribe" :=
    (readings_agree_iff plainConfirmation "eth_subscribe").1.mpr
      ⟨fun _ _ _ => rfl, fun unreadable => absurd readable unreadable⟩
  exact ⟨answered, (agree.success _ answered).2 1 "0x1" rfl rfl⟩

end Response

end MempoolWatch.Rpc
