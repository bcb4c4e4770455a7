import MempoolWatch.Proofs.Json.Values
import MempoolWatch.Proofs.Named
import MempoolWatch.Proofs.Quantity
import MempoolWatch.Proofs.Rpc.Answer

/-! A transaction is read back from its description. The members of a description may be in any
order and have any others between them, and those with the value that a missing one has may be left
out. Each field is read by its name alone, and what is read there undoes what was written. -/
namespace MempoolWatch

/-! ## Fields by name -/

namespace Json

variable {α : Type}

namespace Source

/-- The object with these members, as it is written. -/
def named (entries : List (String × Source)) : Source :=
  .object (entries.map fun (name, value) => (some name, value))

theorem mapM_names (entries : List (String × Source)) :
    (entries.map fun (name, value) => ((some name : Literal), value)).mapM
      (fun (name, value) => name.map (·, value)) = some entries := by
  induction entries with
  | nil => rfl
  | cons entry rest ih =>
    rw [List.map_cons, List.mapM_cons, ih]
    rfl

/-- An object is a record, if none of the fields is given twice. -/
theorem record?_named {names : List String} {entries : List (String × Source)}
    (once : ∀ name ∈ names, (entries.map Prod.fst).count name ≤ 1) :
    (named entries).record? names = some fun name => entries.lookup name := by
  have single : (names.all fun name => (entries.filter (·.1 = name)).length ≤ 1) = true := by
    rw [List.all_eq_true]
    intro name declared
    apply decide_eq_true
    rw [← List.countP_eq_length_filter]
    refine Nat.le_trans (Nat.le_of_eq ?_) (once name declared)
    rw [List.count, List.countP_map]
    rfl
  rw [named, record?, mapM_names]
  simp only [single, Option.bind_eq_bind, Option.bind_some, if_true, Option.pure_def]

end Source

theorem lookup_of_mem {entries : List (String × α)} {name : String} {value : α}
    (member : (name, value) ∈ entries)
    (unique : ∀ other, (name, other) ∈ entries → other = value) :
    entries.lookup name = some value := by
  cases found : entries.lookup name with
  | none => simpa using List.lookup_eq_none_iff.mp found _ member
  | some other => exact congrArg some (unique other (Named.mem_of_get? found))

theorem lookup_map_snd {β : Type} (f : α → β) (entries : List (String × α)) (name : String) :
    (entries.map fun (name, value) => (name, f value)).lookup name =
      (entries.lookup name).map f := by
  induction entries with
  | nil => rfl
  | cons entry rest ih =>
    rw [List.map_cons, List.lookup_cons, List.lookup_cons]
    cases name == entry.1 with
    | true => rfl
    | false => exact ih

theorem source_object (members : List (String × Json)) :
    (Json.object members).source =
      Source.named (members.map fun (name, value) => (name, value.source)) := by
  have each : memberSources members =
      (members.map fun (name, value) => (name, value.source)).map
        fun (name, value) => (some name, value) := by
    induction members with
    | nil => rfl
    | cons member rest ih => exact congrArg (_ :: ·) ih
  exact congrArg Source.object each

/-- The object with distinct names that a value has is a record of its members. -/
theorem record?_source {members : Named Json} (distinct : members.names.Nodup)
    (names : List String) :
    (Json.object members).source.record? names =
      some fun name => (members.get? name).map source := by
  have once : ∀ name ∈ names,
      ((members.map fun (name, value) => (name, value.source)).map Prod.fst).count name ≤ 1 := by
    intro name _
    rw [List.map_map]
    exact List.nodup_iff_count_le_one.mp distinct name
  rw [source_object, Source.record?_named once]
  exact congrArg some (funext fun name => lookup_map_snd source members name)

/-- A field that is given is read, and one that is left out has the value that it stands for. -/
theorem optional?_eq {field : Option Source} {source : Source} {omissible : Prop}
    {value default : α} {read : Source → Option α}
    (given : field = some source ∨ field = none ∧ omissible) (stands : omissible → value = default)
    (reads : read source = some value) : optional? field default read = some value := by
  obtain rfl | ⟨rfl, omitted⟩ := given
  · exact reads
  · exact congrArg some (stands omitted).symm

end Json

namespace Transaction

open Json (Source SpacedSpelling)

variable {tx : Transaction} {entries : List (String × Source)}

/-- The members of the description in the order of the fields. -/
def members (tx : Transaction) : List (String × Json) :=
  [("hash", .string tx.hash.text), ("from", .string tx.sender.text),
    ("to", orNull (fun recipient => .string recipient.text) tx.recipient),
    ("value", .string tx.value.hex), ("input", .string (Hex.marked tx.input)),
    ("gas", .string tx.gas.hex), ("gasPrice", orNull (fun price => .string price.hex) tx.gasPrice)]

theorem json_eq_record (tx : Transaction) : tx.json = .record tx.members := rfl

/-- Each member is a text or null. -/
theorem forall_mem_members (tx : Transaction) (holds : Json → Prop)
    (string : ∀ text, holds (.string text)) (null : holds .null) :
    ∀ member ∈ tx.members, holds member.2 := by
  have optional {α : Type} (write : α → String) (value : Option α) :
      holds (orNull (fun value => .string (write value)) value) := by
    cases value with
    | none => exact null
    | some value => exact string (write value)
  simp only [members, List.forall_mem_cons]
  exact ⟨string _, string _, optional _ _, string _, string _, string _, optional _ _, nofun⟩

/-- The members as they are written. -/
def description (tx : Transaction) : List (String × Source) :=
  tx.members.map fun (name, value) => (name, value.source)

theorem names_description (tx : Transaction) : tx.description.map Prod.fst = fieldNames := rfl

/-- The field has the value that it counts as when it is missing. -/
def Omissible (tx : Transaction) (name : String) : Prop :=
  name = "to" ∧ tx.recipient = none ∨ name = "value" ∧ tx.value = 0 ∨
    name = "input" ∧ tx.input = [] ∨ name = "gas" ∧ tx.gas = 0 ∨
    name = "gasPrice" ∧ tx.gasPrice = none

/-- The members are those of the description in any order, without some that may be missing, and
others with names of their own. -/
def Describes (tx : Transaction) (entries : List (String × Source)) : Prop :=
  ∃ (leftOut : List String) (others : List (String × Source)),
    (∀ name ∈ leftOut, tx.Omissible name) ∧ (∀ other ∈ others, other.1 ∉ fieldNames) ∧
    entries.Perm (tx.description.filter (·.1 ∉ leftOut) ++ others)

/-- What a record of the transaction has in its fields. -/
def FoundIn (tx : Transaction) (field : String → Option Source) : Prop :=
  ∀ member ∈ tx.description,
    field member.1 = some member.2 ∨ field member.1 = none ∧ tx.Omissible member.1

theorem nullable?_orNull {α : Type} {write : α → String} {read : Source → Option α}
    (reads : ∀ value, read (.string (write value)) = some value) (value : Option α) :
    Source.nullable? read (orNull (fun value => .string (write value)) value).source =
      some value := by
  cases value with
  | none => rfl
  | some value => exact congrArg (Option.map some) (reads value)

theorem word?_string_hex (word : Word) : word? (.string word.hex) = some word :=
  Quantity.word?_hex word

theorem address?_string_text (address : Address) :
    address? (.string address.text) = some address :=
  Quantity.fixed?_text address

/-- What is read in the fields undoes what was written there. -/
theorem ofSource?_eq {source : Source} {field : String → Option Source}
    (record : source.record? fieldNames = some field) (found : tx.FoundIn field) :
    ofSource? source = some tx := by
  simp only [FoundIn, description, members, List.map_cons, List.map_nil,
    List.forall_mem_cons] at found
  obtain ⟨hash, sender, recipient, value, input, gas, gasPrice, _⟩ := found
  have hash : Json.required? (field "hash") (·.string?.bind (Quantity.fixed? 32)) =
      some tx.hash := by
    rw [hash.resolve_right (by simp [Omissible])]
    exact Quantity.fixed?_text tx.hash
  have sender : Json.required? (field "from") address? = some tx.sender := by
    rw [sender.resolve_right (by simp [Omissible])]
    exact address?_string_text tx.sender
  have recipient : Json.optional? (field "to") none (Source.nullable? address?) =
      some tx.recipient :=
    Json.optional?_eq recipient (by simp [Omissible])
      (nullable?_orNull address?_string_text tx.recipient)
  have value : Json.optional? (field "value") 0 word? = some tx.value :=
    Json.optional?_eq value (by simp [Omissible]) (word?_string_hex tx.value)
  have input : Json.optional? (field "input") [] (·.string?.bind Quantity.data?) =
      some tx.input :=
    Json.optional?_eq input (by simp [Omissible]) (Quantity.data?_marked tx.input)
  have gas : Json.optional? (field "gas") 0 word? = some tx.gas :=
    Json.optional?_eq gas (by simp [Omissible]) (word?_string_hex tx.gas)
  have gasPrice : Json.optional? (field "gasPrice") none (Source.nullable? word?) =
      some tx.gasPrice :=
    Json.optional?_eq gasPrice (by simp [Omissible]) (nullable?_orNull word?_string_hex tx.gasPrice)
  simp only [ofSource?, record, hash, sender, recipient, value, input, gas, gasPrice,
    Option.bind_eq_bind, Option.bind_some, Option.pure_def]

/-- Each field is described once. -/
theorem nodup_names_description (tx : Transaction) : (tx.description.map Prod.fst).Nodup := by
  rw [names_description]
  decide

theorem count_names_le_one (tx : Transaction) (leftOut : List String) (name : String) :
    ((tx.description.filter (·.1 ∉ leftOut)).map Prod.fst).count name ≤ 1 := by
  have kept : (tx.description.filter (·.1 ∉ leftOut)).Sublist tx.description := List.filter_sublist
  exact List.nodup_iff_count_le_one.mp
    (tx.nodup_names_description.sublist (kept.map Prod.fst)) name

theorem eq_of_mem_description {name : String} {value other : Source}
    (first : (name, value) ∈ tx.description) (second : (name, other) ∈ tx.description) :
    other = value := by
  have found := (Named.get?_eq_some_iff tx.nodup_names_description).mpr first
  rw [(Named.get?_eq_some_iff tx.nodup_names_description).mpr second] at found
  exact Option.some.inj found

theorem mem_fieldNames {name : String} {value : Source} (member : (name, value) ∈ tx.description) :
    name ∈ fieldNames :=
  names_description tx ▸ List.mem_map_of_mem (f := Prod.fst) member

/-- The written members denote values that are written in the same way. -/
theorem valueWithin?_description (tx : Transaction) (room : Nat) :
    ∀ member ∈ tx.description,
      (Source.valueWithin? room member.2).map Json.source = some member.2 := by
  intro member described
  obtain ⟨⟨name, value⟩, inside, rfl⟩ := List.mem_map.mp described
  exact tx.forall_mem_members
    (fun value => (Source.valueWithin? room value.source).map Json.source = some value.source)
    (fun _ => rfl) rfl (name, value) inside

namespace Describes

/-- An object that describes the transaction is a record with its fields. -/
theorem record?_eq (describes : tx.Describes entries) :
    ∃ field, (Source.named entries).record? fieldNames = some field ∧ tx.FoundIn field := by
  obtain ⟨leftOut, others, omissible, foreign, perm⟩ := describes
  have kept {name : String} (declared : name ∈ fieldNames) (value : Source) :
      (name, value) ∈ entries ↔ (name, value) ∈ tx.description ∧ name ∉ leftOut := by
    -- The others have names of their own, so that they do not come between the fields.
    have other : (name, value) ∉ others := fun inside => foreign _ inside declared
    simp [perm.mem_iff, other]
  have once : ∀ name ∈ fieldNames, (entries.map Prod.fst).count name ≤ 1 := by
    intro name declared
    have none : (others.map Prod.fst).count name = 0 := by
      rw [List.count_eq_zero]
      intro member
      obtain ⟨other, inside, rfl⟩ := List.mem_map.mp member
      exact foreign other inside declared
    rw [(perm.map Prod.fst).count_eq, List.map_append, List.count_append, none]
    exact tx.count_names_le_one leftOut name
  refine ⟨_, Source.record?_named once, ?_⟩
  rintro ⟨name, value⟩ member
  have declared := mem_fieldNames member
  by_cases left : name ∈ leftOut
  · refine Or.inr ⟨Named.get?_eq_none_iff.mpr ?_, omissible name left⟩
    intro listed
    obtain ⟨⟨_, other⟩, inside, rfl⟩ := List.mem_map.mp listed
    exact ((kept declared other).mp inside).2 left
  · refine Or.inl (Json.lookup_of_mem ((kept declared value).mpr ⟨member, left⟩) ?_)
    intro other inside
    exact eq_of_mem_description member ((kept declared other).mp inside).1

theorem ofSource?_named (describes : tx.Describes entries) :
    ofSource? (Source.named entries) = some tx := by
  obtain ⟨field, record, found⟩ := describes.record?_eq
  exact ofSource?_eq record found

/-- A value keeps of the object what the fields of the transaction are read from. -/
theorem ofSource?_source (describes : tx.Describes entries) {room : Nat} {value : Json}
    (read : Source.valueWithin? room (Source.named entries) = some value) :
    ofSource? value.source = some tx := by
  obtain ⟨field, record, found⟩ := describes.record?_eq
  cases room with
  | zero => cases read
  | succ room =>
    have member {name : String} (declared : name ∈ fieldNames) :
        value.get? name = (field name).bind (Source.valueWithin? room) := by
      rw [Source.get?_of_valueWithin? read, Source.field_of_record? record declared]
    obtain ⟨values, _, rfl⟩ := Option.map_eq_some_iff.mp read
    refine ofSource?_eq (Json.record?_source (Named.ordered_ofList values).nodup fieldNames) ?_
    rintro ⟨name, source⟩ described
    have kept : (Named.ofList values).get? name = (field name).bind (Source.valueWithin? room) :=
      member (mem_fieldNames described)
    dsimp only
    rw [kept]
    refine (found (name, source) described).imp ?_ (And.imp_left ?_)
    · intro given
      rw [given]
      exact tx.valueWithin?_description room (name, source) described
    · intro missing
      rw [missing]
      rfl

end Describes

theorem rpc_transaction_eq (describes : tx.Describes entries) {status : Nat}
    (success : Rpc.isSuccess status = true) {body : String} {error : Option Source}
    (given : Rpc.Envelope.Given body (some (Source.named entries)) error)
    (flawless : Rpc.Lacks error) (hash : Hash) :
    Rpc.transaction hash (.answered status body) = .ok (some tx) := by
  obtain ⟨value, valued⟩ := given.valued _ rfl
  have tells : Rpc.Tells body (.ok (some tx)) :=
    .found given flawless nofun valued (describes.ofSource?_source valued)
  exact tells.transaction_eq success hash

/-! ## Printed transactions -/

theorem Describes.of_perm (perm : entries.Perm tx.description) : tx.Describes entries := by
  refine ⟨[], [], nofun, nofun, ?_⟩
  rw [List.append_nil, List.filter_eq_self.mpr fun _ _ => by simp]
  exact perm

theorem perm_ofList_members (tx : Transaction) : (Named.ofList tx.members).Perm tx.members := by
  apply Named.perm_ofList
  show fieldNames.Nodup
  decide

/-- The description has the members in the order of their names. -/
theorem exists_describes_json (tx : Transaction) :
    ∃ entries, tx.json.source = Source.named entries ∧ tx.Describes entries := by
  rw [json_eq_record]
  exact ⟨_, Json.source_object _, .of_perm (tx.perm_ofList_members.map _)⟩

theorem plain_members (tx : Transaction) : ∀ member ∈ tx.members, Json.Plain member.2 :=
  tx.forall_mem_members Json.Plain (fun _ => .string) .null

theorem plain_json (tx : Transaction) : Json.Plain tx.json :=
  .object fun member inside =>
    tx.plain_members member (tx.perm_ofList_members.mem_iff.mp inside)

/-- A transaction is read back from every object that describes it: its members may be in any order
and have any with other names between them, and a recipient, a value, an input, gas or a price of
gas that is none, zero or empty may be left out. It is the same whether the object is read as it is
written, in any spelling, or from the value that it has, and when it is the result in the answer to
a call, the call gives the transaction. What is printed for a transaction describes it. -/
theorem described_transaction_read_back (tx : Transaction) :
    (∀ entries, tx.Describes entries →
      ofSource? (Source.named entries) = some tx ∧
      (∀ text : String, SpacedSpelling (Source.named entries) text.toList →
        (Source.ofText? text).bind ofSource? = some tx) ∧
      (∀ room, Source.Valued room (Source.named entries) →
        (Source.valueWithin? room (Source.named entries)).bind (ofSource? ·.source) = some tx) ∧
      ∀ status body error hash, Rpc.isSuccess status = true →
        Rpc.Envelope.Given body (some (Source.named entries)) error → Rpc.Lacks error →
        Rpc.transaction hash (.answered status body) = .ok (some tx)) ∧
    ofSource? tx.json.source = some tx ∧
    (Source.ofText? (Json.text tx.json)).bind ofSource? = some tx ∧
    (Source.ofText? (Json.text (.object tx.members))).bind ofSource? = some tx := by
  have printed : ofSource? tx.json.source = some tx := by
    obtain ⟨entries, same, describes⟩ := tx.exists_describes_json
    rw [same, describes.ofSource?_named]
  have plain : Json.Plain (.object tx.members) := .object tx.plain_members
  refine ⟨?_, printed, ?_, ?_⟩
  · intro entries describes
    refine ⟨describes.ofSource?_named, ?_, ?_, ?_⟩
    · intro text spelled
      rw [spelled.ofText?_eq, Option.bind_some, describes.ofSource?_named]
    · intro room valued
      obtain ⟨value, read⟩ :=
        Option.isSome_iff_exists.mp (Source.isSome_valueWithin?_iff.mpr valued)
      rw [read, Option.bind_some, describes.ofSource?_source read]
    · intro status body error hash success given flawless
      exact rpc_transaction_eq describes success given flawless hash
  · rw [tx.plain_json.ofText?_eq rfl, Option.bind_some, printed]
  · have described : (Json.object tx.members).source = Source.named tx.description :=
      Json.source_object tx.members
    have describes : tx.Describes tx.description := .of_perm (.refl _)
    rw [plain.ofText?_eq rfl, Option.bind_some, described, describes.ofSource?_named]

/-- A contract with an odd number of digits in its gas and no value. -/
def creation : Transaction where
  hash := .fill 32 1
  sender := .fill 20 2
  recipient := none
  value := 0
  input := [0x60, 0x0f]
  gas := 90000
  gasPrice := none

/-- The description with its members the other way round, without recipient and value, and with
others before and behind them. -/
def creationMembers : List (String × Json) :=
  [("chainId", .string "0x1"), ("gasPrice", .null), ("gas", .string "0x15f90"),
    ("input", .string "0x600f"), ("from", .string creation.sender.text),
    ("hash", .string creation.hash.text), ("accessList", .array [.object []])]

/-- The answer to a call with this result. -/
def creationAnswer : Json :=
  .object [("jsonrpc", .string "2.0"), ("result", .object creationMembers), ("id", .integer 1)]

theorem creation_read_back :
    let entries := creationMembers.map fun (name, value) => (name, value.source)
    let text := Json.text (.object creationMembers)
    creation.Describes entries ∧ SpacedSpelling (Source.named entries) text.toList ∧
      (Source.ofText? text).bind ofSource? = some creation ∧
    Source.Valued 3 (Source.named entries) ∧
      (Source.valueWithin? 3 (Source.named entries)).bind (ofSource? ·.source) = some creation ∧
    Rpc.isSuccess 200 = true ∧
      Rpc.Envelope.Given (Json.text creationAnswer) (some (Source.named entries)) none ∧
      Rpc.transaction creation.hash (.answered 200 (Json.text creationAnswer)) =
        .ok (some creation) := by
  intro entries text
  have source : (Json.object creationMembers).source = Source.named entries :=
    Json.source_object creationMembers
  have plain : Json.Plain (.object creationMembers) :=
    .member .string (.member .null (.member .string (.member .string (.member .string
      (.member .string (.member (.array (List.forall_mem_singleton.mpr .emptyObject))
        .emptyObject))))))
  have plainAnswer : Json.Plain creationAnswer :=
    .member .string (.member plain (.member (.natural (by decide)) .emptyObject))
  have describes : creation.Describes entries := by
    refine ⟨["to", "value"], [("chainId", .string "0x1"), ("accessList", .array [.object []])],
      ?_, ?_, ?_⟩
    · simp [Omissible, creation]
    · simp [fieldNames]
    · have gas : creation.gas.hex = "0x15f90" := by decide +kernel
      have input : Hex.marked creation.input = "0x600f" := by decide +kernel
      let own : List (String × Source) :=
        [("hash", .string creation.hash.text), ("from", .string creation.sender.text),
          ("input", .string "0x600f"), ("gas", .string "0x15f90"), ("gasPrice", .null)]
      have kept : creation.description.filter (·.1 ∉ ["to", "value"]) = own := by
        simp [description, members, Json.source, gas, input]
        rfl
      have order : entries = ("chainId", .string "0x1") ::
          (own.reverse ++ [("accessList", .array [.object []])]) := rfl
      rw [kept, order]
      exact (((List.reverse_perm own).append_right _).cons _).trans List.perm_middle.symm
  have valued : Source.Valued 3 (Source.named entries) :=
    Source.isSome_valueWithin?_iff.mp rfl
  have spelled : SpacedSpelling (Source.named entries) text.toList := by
    rw [← source]
    exact plain.spelled
  have given :
      Rpc.Envelope.Given (Json.text creationAnswer) (some (Source.named entries)) none := by
    constructor
    · have record : creationAnswer.source.record? ["result", "error"] = some _ :=
        Json.record?_source (by decide) _
      exact ⟨_, _, plainAnswer.spelled.ofText?_eq, record, congrArg some source, rfl⟩
    · rintro _ ⟨rfl⟩
      exact ⟨_, rfl⟩
    · nofun
  obtain ⟨reads, _⟩ := described_transaction_read_back creation
  obtain ⟨_, fromText, fromValue, answered⟩ := reads entries describes
  exact ⟨describes, spelled, fromText text spelled, valued, fromValue 3 valued, rfl, given,
    answered 200 _ none creation.hash rfl given (Or.inl rfl)⟩

end Transaction

end MempoolWatch
