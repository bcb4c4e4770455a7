import MempoolWatch.Proofs.Identifier
import MempoolWatch.Proofs.Json.Values
import MempoolWatch.Subscription.Frame

/-! Frames as a node sends them. An object with the members of a notification, or of a
confirmation, is understood as such in every spelling, whatever the order of the members and
whatever other members stand between them. -/
namespace MempoolWatch

/-! ## Members -/

namespace Json.Source

/-- The members of an object are these in any order, and others that have a value with so much
room. The others have neither the names of these nor the ones that are kept out. -/
def Holds (room : Nat) (given : List (String × Source)) (keptOut : List String)
    (members : List (Literal × Source)) : Prop :=
  ∃ others : List (String × Source),
    members.Perm ((given ++ others).map fun (name, value) => (some name, value)) ∧
    ∀ other ∈ others,
      other.1 ∉ given.map Prod.fst ∧ other.1 ∉ keptOut ∧ Valued room other.2

namespace Holds

variable {room : Nat} {given : List (String × Source)} {keptOut : List String}
  {members : List (Literal × Source)} {name : String} {value : Source}

theorem member_cases (holds : Holds room given keptOut members) {literal : Literal}
    (member : (literal, value) ∈ members) :
    ∃ name, literal = some name ∧ ((name, value) ∈ given ∨
      name ∉ given.map Prod.fst ∧ name ∉ keptOut ∧ Valued room value) := by
  obtain ⟨others, perm, rest⟩ := holds
  obtain ⟨⟨name, value⟩, listed, ⟨⟩⟩ := List.mem_map.mp (perm.mem_iff.mp member)
  refine ⟨name, rfl, ?_⟩
  rcases List.mem_append.mp listed with known | other
  · exact Or.inl known
  · exact Or.inr (rest (name, value) other)

theorem mem (holds : Holds room given keptOut members) (known : (name, value) ∈ given) :
    (some name, value) ∈ members := by
  obtain ⟨others, perm, _⟩ := holds
  exact perm.mem_iff.mpr (List.mem_map.mpr ⟨_, List.mem_append_left others known, rfl⟩)

/-- A member that is given once is found under its name. -/
theorem member?_eq_some (holds : Holds room given keptOut members)
    (known : (name, value) ∈ given) (once : ∀ other, (name, other) ∈ given → other = value) :
    member? members name = some value := by
  cases found : member? members name with
  | none => exact absurd rfl (member?_eq_none_iff.mp found _ (holds.mem known))
  | some other =>
    -- Of the members with a name the last one counts, but there is only one.
    obtain ⟨_, ⟨rfl⟩, listed | ⟨foreign, _⟩⟩ := holds.member_cases (mem_of_member? found)
    · exact congrArg some (once other listed)
    · exact absurd (List.mem_map_of_mem known) foreign

theorem member?_eq_none (holds : Holds room given keptOut members) (absent : name ∈ keptOut)
    (ungiven : name ∉ given.map Prod.fst) : member? members name = none := by
  apply member?_eq_none_iff.mpr
  rintro ⟨literal, value⟩ member rfl
  obtain ⟨_, ⟨rfl⟩, listed | ⟨_, kept, _⟩⟩ := holds.member_cases member
  · exact ungiven (List.mem_map_of_mem listed)
  · exact kept absent

theorem valued (holds : Holds room given keptOut members)
    (each : ∀ known ∈ given, Valued room known.2) :
    Valued (room + 1) (.object members) := by
  constructor
  · rintro ⟨literal, value⟩ member
    obtain ⟨_, rfl, _⟩ := holds.member_cases member
    rfl
  · rintro ⟨literal, value⟩ member
    obtain ⟨name, _, listed | ⟨_, _, valued⟩⟩ := holds.member_cases member
    · exact each (name, value) listed
    · exact valued

end Holds

end Json.Source

/-! ## Frames -/

namespace Subscription.Frame

open Json (Source SpacedSpelling)

/-- What a node sends to announce this hash on this subscription. -/
def Announces (name : String) (hash : Hash) (source : Source) : Prop :=
  ∃ members fields, source = .object members ∧
    Source.Holds (Json.depthLimit - 1)
      [("jsonrpc", .string "2.0"), ("method", .string "eth_subscription"),
        ("params", .object fields)] [] members ∧
    Source.Holds (Json.depthLimit - 2)
      [("subscription", .string name), ("result", .string hash.text)] [] fields

/-- What a node sends to confirm a request of this number with this subscription. -/
def Confirms (id : UInt64) (name : String) (source : Source) : Prop :=
  ∃ members, source = .object members ∧
    Source.Holds (Json.depthLimit - 1)
      [("id", .number (some (.integer id.toNat))), ("result", .string name)]
      ["params", "error"] members

variable {name text : String} {hash : Hash} {id : UInt64} {source : Source}

/-- A text is understood by the value of what it spells. -/
theorem ofText_eq_ofJson (spelled : SpacedSpelling source text.toList)
    (valued : source.Valued Json.depthLimit) :
    ∃ value, source.valueWithin? Json.depthLimit = some value ∧ ofText text = ofJson value := by
  obtain ⟨value, read⟩ := Option.isSome_iff_exists.mp (Source.isSome_valueWithin?_iff.mpr valued)
  refine ⟨value, read, ?_⟩
  simp only [ofText, Json.ofText?, spelled.ofText?_eq, read, Option.bind_eq_bind,
    Option.bind_some]

theorem ofParams_eq {params : Json} (subscribed : params.get? "subscription" = some (.string name))
    (hashed : params.get? "result" = some (.string hash.text)) :
    ofParams params = .notification name hash := by
  rw [ofParams, subscribed, hashed]
  simp only [Option.bind_some, Json.string?, FixedBytes.ofText?_text]

theorem Announces.ofText_eq (announces : Announces name hash source)
    (spelled : SpacedSpelling source text.toList) : ofText text = .notification name hash := by
  obtain ⟨members, fields, rfl, outer, inner⟩ := announces
  have valuedFields : Source.Valued (Json.depthLimit - 1) (.object fields) := by
    apply inner.valued
    rw [List.forall_mem_cons, List.forall_mem_singleton]
    exact ⟨.string, .string⟩
  have valued : Source.Valued Json.depthLimit (.object members) := by
    apply outer.valued
    rw [List.forall_mem_cons, List.forall_mem_cons, List.forall_mem_singleton]
    exact ⟨.string, .string, valuedFields⟩
  obtain ⟨value, read, understood⟩ := ofText_eq_ofJson spelled valued
  obtain ⟨params, readParams⟩ :=
    Option.isSome_iff_exists.mp (Source.isSome_valueWithin?_iff.mpr valuedFields)
  have given : Source.member? members "params" = some (.object fields) :=
    outer.member?_eq_some (by simp) (by simp)
  have subscribed : Source.member? fields "subscription" = some (.string name) :=
    inner.member?_eq_some (by simp) (by simp)
  have hashed : Source.member? fields "result" = some (.string hash.text) :=
    inner.member?_eq_some (by simp) (by simp)
  have found : value.get? "params" = some params := by
    rw [Source.get?_of_valueWithin? read, given]
    exact readParams
  rw [understood, ofJson, found]
  apply ofParams_eq
  · rw [Source.get?_of_valueWithin? readParams, subscribed]
    rfl
  · rw [Source.get?_of_valueWithin? readParams, hashed]
    rfl

theorem Confirms.ofText_eq (confirms : Confirms id name source)
    (spelled : SpacedSpelling source text.toList) :
    ofText text = .confirmation id.toNat name := by
  obtain ⟨members, rfl, holds⟩ := confirms
  have valued : Source.Valued Json.depthLimit (.object members) := by
    apply holds.valued
    rw [List.forall_mem_cons, List.forall_mem_singleton]
    exact ⟨.number, .string⟩
  obtain ⟨value, read, understood⟩ := ofText_eq_ofJson spelled valued
  have find (name : String) : value.get? name =
      (Source.member? members name).bind (Source.valueWithin? (Json.depthLimit - 1)) :=
    Source.get?_of_valueWithin? read name
  have noParams : Source.member? members "params" = none :=
    holds.member?_eq_none (by simp) (by simp)
  have noError : Source.member? members "error" = none :=
    holds.member?_eq_none (by simp) (by simp)
  have numbered : Source.member? members "id" = some (.number (some (.integer id.toNat))) :=
    holds.member?_eq_some (by simp) (by simp)
  have subscribed : Source.member? members "result" = some (.string name) :=
    holds.member?_eq_some (by simp) (by simp)
  have number : ((value.get? "id").bind Json.natural?) = some id.toNat := by
    rw [find, numbered]
    show (if 0 ≤ (id.toNat : Int) then some (id.toNat : Int).toNat else none) = _
    rw [if_pos (Int.natCast_nonneg _), Int.toNat_natCast]
  have subscription : value.get? "result" = some (.string name) := by
    rw [find, subscribed]
    rfl
  rw [understood, ofJson, find "params", noParams]
  show ofReply value = _
  rw [ofReply, find "error", noError]
  simp only [Option.bind_none, number, subscription]

/-! ## Printed frames -/

/-- The announcement with its own members only. -/
def announcementOf (name : String) (hash : Hash) : Json :=
  .record [("jsonrpc", .string "2.0"), ("method", .string "eth_subscription"),
    ("params", .record [("subscription", .string name), ("result", .string hash.text)])]

/-- The confirmation with its own members only. -/
def confirmationOf (id : UInt64) (name : String) : Json :=
  .record [("id", .integer id.toNat), ("result", .string name)]

theorem announces_announcementOf (name : String) (hash : Hash) :
    Announces name hash (announcementOf name hash).source :=
  ⟨_, _, rfl, ⟨[], .refl _, nofun⟩, ⟨[], .swap _ _ _, nofun⟩⟩

theorem confirms_confirmationOf (id : UInt64) (name : String) :
    Confirms id name (confirmationOf id name).source :=
  ⟨_, rfl, ⟨[], .refl _, nofun⟩⟩

theorem plain_announcementOf (name : String) (hash : Hash) :
    Json.Plain (announcementOf name hash) := by
  have plainParams : Json.Plain
      (.object [("result", .string hash.text), ("subscription", .string name)]) :=
    .member .string (.member .string .emptyObject)
  show Json.Plain (.object [("jsonrpc", _), ("method", _), ("params", _)])
  exact .member .string (.member .string (.member plainParams .emptyObject))

theorem plain_confirmationOf (id : UInt64) (name : String) :
    Json.Plain (confirmationOf id name) := by
  show Json.Plain (.object [("id", _), ("result", _)])
  exact .member (.natural id.toNat_lt) (.member .string .emptyObject)

/-- A frame is understood as it was sent. An object with the members of a notification names the
subscription and the hash in all its spellings: its members may be in any order, with any blanks
and escapes, and with any other members between them, also inside the parameters. The same goes for
a confirmation, whatever its number of 64 bits, as long as it has neither parameters nor an
error. The last two statements say so of the texts with no more in them than they need. -/
theorem frames_understood :
    (∀ name hash source text, Announces name hash source → SpacedSpelling source text.toList →
      ofText text = .notification name hash) ∧
    (∀ id name source text, Confirms id name source → SpacedSpelling source text.toList →
      ofText text = .confirmation id.toNat name) ∧
    (∀ name hash, ofText (Json.text (announcementOf name hash)) = .notification name hash) ∧
    ∀ id name, ofText (Json.text (confirmationOf id name)) = .confirmation id.toNat name := by
  refine ⟨fun _ _ _ _ => Announces.ofText_eq, fun _ _ _ _ => Confirms.ofText_eq, ?_, ?_⟩
  · intro name hash
    exact (announces_announcementOf name hash).ofText_eq (plain_announcementOf name hash).spelled
  · intro id name
    exact (confirms_confirmationOf id name).ofText_eq (plain_confirmationOf id name).spelled

/-- An announcement with its members the other way round and others before them, and a confirmation
of the greatest number, with blanks around them. -/
theorem frames_understood_among_others :
    let params : Json := .object [("removed", .array [.null]),
      ("result", .string (FixedBytes.fill 32 1 : Hash).text), ("subscription", .string "\"é")]
    let note : Json := .object [("params2", .bool false), ("params", params),
      ("method", .string "eth_subscription"), ("jsonrpc", .string "2.0")]
    let answer : Json := .object [("result", .string "0x1"), ("id", .integer 18446744073709551615)]
    let spaced (json : Json) : String := String.ofList (['\n', ' '] ++ json.chars ++ ['\t'])
    Announces "\"é" (.fill 32 1) note.source ∧ SpacedSpelling note.source (spaced note).toList ∧
      ofText (spaced note) = .notification "\"é" (.fill 32 1) ∧
    Confirms 18446744073709551615 "0x1" answer.source ∧
      SpacedSpelling answer.source (spaced answer).toList ∧
      ofText (spaced answer) = .confirmation 18446744073709551615 "0x1" := by
  intro params note answer spaced
  have plainParams : Json.Plain params :=
    .member (.array (List.forall_mem_singleton.mpr .null))
      (.member .string (.member .string .emptyObject))
  have plainNote : Json.Plain note :=
    .member .bool (.member plainParams (.member .string (.member .string .emptyObject)))
  have plainAnswer : Json.Plain answer :=
    .member .string (.member (.natural (by decide)) .emptyObject)
  have spelled {json : Json} (plain : Json.Plain json) :
      SpacedSpelling json.source (spaced json).toList := by
    rw [String.toList_ofList]
    exact .intro rfl plain.spelling rfl
  have announces : Announces "\"é" (.fill 32 1) note.source := by
    refine ⟨_, _, rfl, ⟨[("params2", .bool false)], (List.reverse_perm _).symm, ?_⟩,
      ⟨[("removed", .array [.null])], (List.reverse_perm _).symm, ?_⟩⟩
    · rw [List.forall_mem_singleton]
      exact ⟨by decide, by decide, .bool⟩
    · rw [List.forall_mem_singleton]
      exact ⟨by decide, by decide, .array (List.forall_mem_singleton.mpr .null)⟩
  have confirms : Confirms 18446744073709551615 "0x1" answer.source :=
    ⟨_, rfl, ⟨[], (List.reverse_perm _).symm, nofun⟩⟩
  obtain ⟨announced, confirmed, _⟩ := frames_understood
  exact ⟨announces, spelled plainNote, announced _ _ _ _ announces (spelled plainNote),
    confirms, spelled plainAnswer, confirmed _ _ _ _ confirms (spelled plainAnswer)⟩

end Subscription.Frame

end MempoolWatch
