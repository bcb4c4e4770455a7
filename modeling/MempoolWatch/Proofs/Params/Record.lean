import MempoolWatch.Params.Overlay
import MempoolWatch.Proofs.Toml.Order
import MempoolWatch.Proofs.Toml.WellFormed

/-! Records in a document: what a table or a list gives for each field, and what the field is then,
laid over the value that it has if nothing is given. -/
namespace MempoolWatch.Toml

/-- What a record gives for a field: a table the member of this name, a list what stands in the
place of the field. -/
def given? (names : List String) : Toml → String → Option Toml
  | table members, name => Named.get? members name
  | array items, name => (names.zip items).lookup name
  | _, _ => none

/-- A table of known fields, or a list with all of them in their order. -/
def IsRecord (names : List String) : Toml → Prop
  | table members => ∀ member ∈ members, member.1 ∈ names
  | array items => names.length ≤ items.length
  | _ => False

/-- A record that may have fields of any name. A list may end early. -/
def IsOpenRecord : Toml → Prop
  | table _ | array _ | moment => True
  | _ => False

theorem record?_eq_some_iff {names : List String} {toml : Toml} {field : String → Option Toml} :
    toml.record? names = some field ↔ toml.IsRecord names ∧ toml.given? names = field := by
  cases toml with
  | table members => simp [record?, IsRecord, given?, funext_iff]
  | array items => simp [record?, IsRecord, given?, funext_iff]
  | _ => simp [record?, IsRecord]

theorem openRecord?_eq_some_iff {names : List String} {toml : Toml}
    {field : String → Option Toml} :
    toml.openRecord? names = some field ↔ toml.IsOpenRecord ∧ toml.given? names = field := by
  cases toml <;> simp [openRecord?, IsOpenRecord, given?, funext_iff]

theorem WellFormed.given? {names : List String} {toml value : Toml} {name : String}
    (wellFormed : toml.WellFormed) (given : toml.given? names name = some value) :
    value.WellFormed := by
  cases wellFormed with
  | table ordered each => exact each _ (Named.mem_of_get? given)
  | array each =>
    have paired := Named.mem_of_get? given
    exact each value (List.of_mem_zip paired).2
  | _ => contradiction

/-! ## What a field means -/

/-- A float, or an integer as the float nearest to it. -/
inductive IsNumber : Toml → Float → Prop
  | float (value : Float) : IsNumber (.float value) value
  | integer (value : Int) :
      IsNumber (.integer value) (Decimal.toFloat (value < 0) value.natAbs 0)

def IsText (toml : Toml) (text : String) : Prop := toml = .string text

def IsUInt32 (toml : Toml) (value : UInt32) : Prop := toml = .integer value.toNat

def IsUInt64 (toml : Toml) (value : UInt64) : Prop := toml = .integer value.toNat

variable {α β : Type} {read : Toml → Option α} {means : Toml → α → Prop} {beneath value : α}
  {field : Option Toml}

/-- A field has the value that it is given, and else the one beneath. -/
inductive Overlaid (means : Toml → α → Prop) (beneath : α) : Option Toml → α → Prop
  | missing : Overlaid means beneath none beneath
  | given {toml : Toml} {value : α} (meant : means toml value) :
      Overlaid means beneath (some toml) value

/-- If the field is given, it means some value. -/
def Typed (means : Toml → α → Prop) (field : Option Toml) : Prop :=
  ∀ toml, field = some toml → ∃ value, means toml value

theorem Overlaid.meant (overlaid : Overlaid means beneath field value) {toml : Toml}
    (given : field = some toml) : means toml value := by
  cases overlaid with
  | missing => contradiction
  | given meant =>
    cases given
    exact meant

theorem Overlaid.typed (overlaid : Overlaid means beneath field value) : Typed means field :=
  fun _ given => ⟨value, overlaid.meant given⟩

/-- The reader finds in a value of a document exactly what it means. -/
def Reads (read : Toml → Option α) (means : Toml → α → Prop) : Prop :=
  ∀ toml value, toml.WellFormed → (read toml = some value ↔ means toml value)

namespace Reads

variable (reads : Reads read means) (wellFormed : ∀ toml, field = some toml → toml.WellFormed)
include reads wellFormed

theorem overlaid {given : Option α} (found : field? field read = some given) :
    Overlaid means beneath field (given.getD beneath) := by
  cases field with
  | none =>
    cases found
    exact .missing
  | some toml =>
    obtain ⟨value, finds, rfl⟩ := Option.map_eq_some_iff.mp found
    exact .given ((reads _ _ (wellFormed toml rfl)).mp finds)

theorem exists_field? (typed : Typed means field) : ∃ given, field? field read = some given := by
  cases field with
  | none => exact ⟨none, rfl⟩
  | some toml =>
    obtain ⟨value, meant⟩ := typed toml rfl
    exact ⟨some value, congrArg (Option.map some) ((reads _ _ (wellFormed toml rfl)).mpr meant)⟩

theorem unique {other : α} (overlaid : Overlaid means beneath field value)
    (also : Overlaid means beneath field other) : value = other := by
  cases overlaid with
  | missing =>
    cases also
    rfl
  | given meant =>
    cases also with
    | given also =>
      have first := (reads _ _ (wellFormed _ rfl)).mpr meant
      have second := (reads _ _ (wellFormed _ rfl)).mpr also
      exact Option.some.inj (first.symm.trans second)

end Reads

theorem field?_map {given : Option α} (found : field? field read = some given) (view : α → β) :
    field? field (fun toml => (read toml).map view) = some (given.map view) := by
  cases field with
  | none =>
    cases found
    rfl
  | some toml =>
    obtain ⟨value, finds, rfl⟩ := Option.map_eq_some_iff.mp found
    rw [field?, finds]
    rfl

theorem float?_eq_some_iff {toml : Toml} {value : Float} :
    toml.float? = some value ↔ toml.IsNumber value := by
  cases toml with
  | float | integer =>
    constructor
    · rintro ⟨⟩
      constructor
    · rintro ⟨⟩
      rfl
  | _ => exact iff_of_false nofun nofun

theorem string?_eq_some_iff {toml : Toml} {text : String} :
    toml.string? = some text ↔ toml.IsText text := by
  cases toml with
  | string written => simp [string?, IsText]
  | _ => exact iff_of_false nofun nofun

theorem natural?_eq_some_iff {toml : Toml} {value : Nat} :
    toml.natural? = some value ↔ toml = .integer value := by
  cases toml with
  | integer number =>
    rw [natural?, integer.injEq]
    split
    · rw [Option.some.injEq]
      omega
    · exact iff_of_false nofun (by omega)
  | _ => exact iff_of_false nofun nofun

/-- An integer of a document fits a number of 64 bits. -/
theorem WellFormed.natural?_lt {toml : Toml} (wellFormed : toml.WellFormed) {value : Nat}
    (reads : toml.natural? = some value) : value < UInt64.size := by
  cases natural?_eq_some_iff.mp reads
  cases wellFormed with
  | integer least most => exact lt_of_le_of_lt (Int.ofNat_le.mp most) (by decide)

theorem small?_eq_some_iff {toml : Toml} {value : UInt32} :
    toml.small? = some value ↔ toml.IsUInt32 value := by
  rw [IsUInt32, ← natural?_eq_some_iff]
  constructor
  · intro read
    obtain ⟨number, natural, read⟩ := Option.bind_eq_some_iff.mp read
    obtain ⟨fits, read⟩ := Option.ite_none_right_eq_some.mp read
    cases read
    rw [natural, UInt32.toNat_ofNat_of_lt' fits]
  · intro natural
    rw [small?, natural]
    show (if value.toNat < UInt32.size then some (UInt32.ofNat value.toNat) else none) = _
    rw [if_pos value.toNat_lt_size, UInt32.ofNat_toNat]

theorem reads_float? : Reads float? IsNumber :=
  fun _ _ _ => float?_eq_some_iff

theorem reads_string? : Reads string? IsText :=
  fun _ _ _ => string?_eq_some_iff

theorem reads_uint64 : Reads (fun toml => toml.natural?.map UInt64.ofNat) IsUInt64 := by
  intro toml value wellFormed
  constructor
  · intro read
    obtain ⟨number, natural, rfl⟩ := Option.map_eq_some_iff.mp read
    rw [IsUInt64, UInt64.toNat_ofNat_of_lt' (wellFormed.natural?_lt natural)]
    exact natural?_eq_some_iff.mp natural
  · intro meant
    exact Option.map_eq_some_iff.mpr ⟨_, natural?_eq_some_iff.mpr meant, value.ofNat_toNat⟩

theorem reads_small? : Reads small? IsUInt32 :=
  fun _ _ _ => small?_eq_some_iff

/-! ## What a document gives -/

theorem get?_members (members : Named Node) (name : String) :
    Named.get? (Node.members members) name = (Named.get? members name).map Node.toml := by
  induction members with
  | nil => rw [Node.members]; rfl
  | cons member rest ih =>
    obtain ⟨first, node⟩ := member
    rw [Node.members, Named.get?_cons, Named.get?_cons]
    split
    · rfl
    · exact ih

theorem given?_toml (root : Table) (names : List String) (name : String) :
    root.toml.given? names name = (root.get? name).map Node.toml := by
  rw [Table.toml, Table.node, Node.toml]
  exact get?_members root.members name

/-- What a document gives for a table depends on nothing but what its layout has about it. -/
theorem given?_eq_of_about {text other : String} {layout otherLayout : Layout}
    {document otherDocument : Toml} {name : String}
    (laidOut : Layout.ofText? text = some layout)
    (otherLaidOut : Layout.ofText? other = some otherLayout)
    (same : layout.about name = otherLayout.about name) (denoted : ofText? text = some document)
    (otherDenoted : ofText? other = some otherDocument) (names : List String) :
    document.given? names name = otherDocument.given? names name := by
  rw [Layout.ofText?_eq, laidOut] at denoted
  rw [Layout.ofText?_eq, otherLaidOut] at otherDenoted
  obtain ⟨root, rooted, rfl⟩ := Option.map_eq_some_iff.mp denoted
  obtain ⟨otherRoot, otherRooted, rfl⟩ := Option.map_eq_some_iff.mp otherDenoted
  rw [given?_toml, given?_toml, Layout.get?_eq_of_about same rooted otherRooted]

end MempoolWatch.Toml
