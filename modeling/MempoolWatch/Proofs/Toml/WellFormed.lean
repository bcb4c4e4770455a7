import MempoolWatch.Proofs.Named
import MempoolWatch.Toml.Document

/-! What every document has in common. Its integers have 64 bits, and every table has each of its
names once, wherever the table stands, since a name that is already there is refused and never
given a second value. -/
namespace MempoolWatch

/-- In every table of a value each name stands once, in the order of the names, and every integer
has 64 bits with its sign. -/
inductive Toml.WellFormed : Toml → Prop
  | string (text : String) : WellFormed (.string text)
  | integer {value : Int} (least : -9223372036854775808 ≤ value)
      (most : value ≤ 9223372036854775807) :
      WellFormed (.integer value)
  | float (value : Float) : WellFormed (.float value)
  | bool (value : Bool) : WellFormed (.bool value)
  | moment : WellFormed .moment
  | array {items : List Toml} (each : ∀ item ∈ items, WellFormed item) : WellFormed (.array items)
  | table {members : Named Toml} (names : Named.Ordered members)
      (each : ∀ member ∈ members, WellFormed member.2) : WellFormed (.table members)

namespace Toml

/-- The same of a document while it is read. -/
inductive Node.WellFormed : Node → Prop
  | value {toml : Toml} (wellFormed : toml.WellFormed) : WellFormed (.value toml)
  | table {origin : Origin} {members : Named Node} (names : Named.Ordered members)
      (each : ∀ member ∈ members, WellFormed member.2) : WellFormed (.table origin members)
  | tables {latest : Named Node} {earlier : List (Named Node)}
      (names : ∀ members ∈ latest :: earlier, Named.Ordered members)
      (each : ∀ members ∈ latest :: earlier, ∀ member ∈ members, WellFormed member.2) :
      WellFormed (.tables latest earlier)

theorem Node.members_eq (members : List (String × Node)) :
    Node.members members = members.map fun (name, node) => (name, node.toml) := by
  induction members with
  | nil => rw [Node.members, List.map_nil]
  | cons member rest ih => rw [Node.members, ih, List.map_cons]

theorem Node.arrayOnto_eq (items : List Toml) (earlier : List (List (String × Node))) :
    Node.arrayOnto items earlier =
      (earlier.map fun members => .table (Node.members members)).reverse ++ items := by
  induction earlier generalizing items with
  | nil => rw [Node.arrayOnto, List.map_nil, List.reverse_nil, List.nil_append]
  | cons members rest ih =>
    rw [Node.arrayOnto, ih, List.map_cons, List.reverse_cons, List.append_assoc,
      List.singleton_append]

theorem names_members (members : List (String × Node)) :
    Named.names (Node.members members) = Named.names members := by
  rw [Node.members_eq, Named.names, List.map_map]
  rfl

theorem wellFormed_table_members {members : Named Node} (names : Named.Ordered members)
    (each : ∀ member ∈ members, member.2.toml.WellFormed) :
    WellFormed (.table (Node.members members)) := by
  refine .table ?_ ?_
  · rw [Named.Ordered, names_members]
    exact names
  · rw [Node.members_eq]
    intro member present
    obtain ⟨source, listed, rfl⟩ := List.mem_map.mp present
    exact each source listed

theorem Node.WellFormed.toml {node : Node} (wellFormed : node.WellFormed) :
    node.toml.WellFormed := by
  induction wellFormed with
  | value wellFormed =>
    rw [Node.toml]
    exact wellFormed
  | table names each ih =>
    rw [Node.toml]
    exact wellFormed_table_members names ih
  | @tables latest earlier names each ih =>
    rw [Node.toml, Node.arrayOnto_eq]
    refine .array ?_
    intro item member
    have listed : item ∈ (latest :: earlier).map fun members =>
        Toml.table (Node.members members) := by
      simpa [or_comm] using member
    obtain ⟨members, present, rfl⟩ := List.mem_map.mp listed
    exact wellFormed_table_members (names members present) (ih members present)

namespace Table

def WellFormed (table : Table) : Prop :=
  table.node.WellFormed

theorem wellFormed_new (origin : Origin) : (new origin).WellFormed :=
  .table .nil (List.forall_mem_nil _)

theorem wellFormed_of_node {origin : Origin} {members : Named Node}
    (wellFormed : (Node.table origin members).WellFormed) (other : Origin) :
    (Table.mk other members).WellFormed := by
  cases wellFormed with
  | table names each => exact .table names each

namespace WellFormed

variable {table : Table} {name : String} {node : Node}

theorem set (wellFormed : table.WellFormed) (name : String) (given : node.WellFormed) :
    (table.set name node).WellFormed := by
  cases wellFormed with
  | table names each =>
    refine .table (Named.ordered_set names name node) ?_
    intro member present
    rcases Named.mem_of_mem_set present with rfl | old
    · exact given
    · exact each member old

theorem get? (wellFormed : table.WellFormed) (found : table.get? name = some node) :
    node.WellFormed := by
  cases wellFormed with
  | table names each => exact each (name, node) (Named.mem_of_get? found)

theorem alter {origin : Origin} {change : Table → Option Table}
    (keeps : ∀ {table changed : Table}, table.WellFormed → change table = some changed →
      changed.WellFormed)
    {path : List String} {changed : Table} (wellFormed : table.WellFormed)
    (result : alter origin change path table = some changed) : changed.WellFormed := by
  induction path generalizing table changed with
  | nil => exact keeps wellFormed result
  | cons name path ih =>
    rw [Table.alter] at result
    split at result
    · obtain ⟨inner, altered, result⟩ := Option.bind_eq_some_iff.mp result
      cases result
      exact wellFormed.set name (ih (wellFormed_new origin) altered)
    · contradiction
    · next latest earlier found =>
      cases wellFormed.get? found with
      | tables names each =>
        have latestWellFormed : (Table.mk .declared latest).WellFormed :=
          .table (names _ List.mem_cons_self) (each _ List.mem_cons_self)
        obtain ⟨inner, altered, result⟩ := Option.bind_eq_some_iff.mp result
        cases result
        cases ih latestWellFormed altered with
        | table innerNames innerEach =>
          refine wellFormed.set name (.tables ?_ ?_)
          · exact List.forall_mem_cons.mpr ⟨innerNames, (List.forall_mem_cons.mp names).2⟩
          · exact List.forall_mem_cons.mpr ⟨innerEach, (List.forall_mem_cons.mp each).2⟩
    · next inner members found =>
      split at result
      · contradiction
      · obtain ⟨inner, altered, result⟩ := Option.bind_eq_some_iff.mp result
        cases result
        exact wellFormed.set name (ih (wellFormed.get? found) altered)

theorem assign {key : Key} {value : Toml} {changed : Table} (wellFormed : table.WellFormed)
    (given : value.WellFormed) (result : table.assign key value = some changed) :
    changed.WellFormed := by
  refine wellFormed.alter ?_ result
  intro inner filled innerWellFormed result
  split at result
  · contradiction
  · split at result
    · cases result
      exact innerWellFormed.set key.name (.value given)
    · contradiction

theorem declare {key : Key} {changed : Table} (wellFormed : table.WellFormed)
    (result : table.declare key = some changed) : changed.WellFormed := by
  refine wellFormed.alter ?_ result
  intro parent declared parentWellFormed result
  split at result
  · cases result
    exact parentWellFormed.set key.name (wellFormed_new .declared)
  · next members found =>
    cases result
    exact parentWellFormed.set key.name
      (wellFormed_of_node (parentWellFormed.get? found) .declared)
  · contradiction

theorem append {key : Key} {changed : Table} (wellFormed : table.WellFormed)
    (result : table.append key = some changed) : changed.WellFormed := by
  refine wellFormed.alter ?_ result
  intro parent appended parentWellFormed result
  split at result
  · cases result
    exact parentWellFormed.set key.name (.tables (by simp [Named.Ordered, Named.names]) (by simp))
  · next latest earlier found =>
    cases result
    cases parentWellFormed.get? found with
    | tables names each =>
      refine parentWellFormed.set key.name (.tables ?_ ?_)
      · exact List.forall_mem_cons.mpr ⟨.nil, names⟩
      · exact List.forall_mem_cons.mpr ⟨List.forall_mem_nil _, each⟩
  · contradiction

end WellFormed

end Table

theorem wellFormed_of_integer? {value : Int} {toml : Toml} (read : integer? value = some toml) :
    toml.WellFormed := by
  unfold integer? at read
  split at read
  · next range =>
    cases read
    exact .integer range.1 range.2
  · contradiction

theorem wellFormed_of_based? {base : Nat} {isDigit : Char → Bool} {text rest : List Char}
    {toml : Toml} (read : based? base isDigit text = some (toml, rest)) : toml.WellFormed := by
  obtain ⟨⟨digits, behind⟩, _, read⟩ := Option.bind_eq_some_iff.mp read
  obtain ⟨value, integer, read⟩ := Option.bind_eq_some_iff.mp read
  cases read
  exact wellFormed_of_integer? integer

theorem wellFormed_of_decimal? {text rest : List Char} {toml : Toml}
    (read : decimal? text = some (toml, rest)) : toml.WellFormed := by
  obtain ⟨⟨whole, afterWhole⟩, _, read⟩ := Option.bind_eq_some_iff.mp read
  obtain ⟨⟨fraction, afterFraction⟩, _, read⟩ := Option.bind_eq_some_iff.mp read
  obtain ⟨⟨exponent, behind⟩, _, read⟩ := Option.bind_eq_some_iff.mp read
  dsimp only at read
  split at read
  · obtain ⟨value, integer, read⟩ := Option.bind_eq_some_iff.mp read
    cases read
    exact wellFormed_of_integer? integer
  · obtain ⟨_, read⟩ := Option.ite_none_left_eq_some.mp read
    cases read
    exact .float _

theorem wellFormed_of_signedSpecial? {text rest : List Char} {toml : Toml}
    (read : signedSpecial? text = some (toml, rest)) : toml.WellFormed := by
  obtain ⟨⟨value, behind⟩, _, read⟩ := Option.map_eq_some_iff.mp read
  cases read
  exact .float _

theorem wellFormed_of_number? {text rest : List Char} {toml : Toml}
    (read : number? text = some (toml, rest)) : toml.WellFormed := by
  unfold number? at read
  split at read
  · exact wellFormed_of_based? read
  · exact wellFormed_of_based? read
  · exact wellFormed_of_based? read
  · rcases Option.or_eq_some_iff.mp read with special | ⟨_, decimal⟩
    · exact wellFormed_of_signedSpecial? special
    · exact wellFormed_of_decimal? decimal

theorem wellFormed_of_moment? {text rest : List Char} {toml : Toml}
    (read : moment? text = some (toml, rest)) : toml.WellFormed := by
  obtain ⟨behind, _, read⟩ := Option.map_eq_some_iff.mp read
  cases read
  exact .moment

/-- What a text without arrays and tables is read as. -/
theorem wellFormed_of_scalar? {text rest : List Char} {toml : Toml}
    (read : ((quoted? text).map fun (content, rest) => (.string content, rest)).or
      ((moment? text).or (number? text)) = some (toml, rest)) : toml.WellFormed := by
  rcases Option.or_eq_some_iff.mp read with quoted | ⟨_, read⟩
  · obtain ⟨⟨content, behind⟩, _, read⟩ := Option.map_eq_some_iff.mp quoted
    cases read
    exact .string content
  · rcases Option.or_eq_some_iff.mp read with moment | ⟨_, number⟩
    · exact wellFormed_of_moment? moment
    · exact wellFormed_of_number? number

/-- What the readers of values find with some fuel. -/
structure ReadsWellFormed (fuel : Nat) : Prop where
  value {room : Nat} {text rest : List Char} {toml : Toml}
    (read : value? room fuel text = some (toml, rest)) : toml.WellFormed
  items {room : Nat} {text rest : List Char} {items : List Toml}
    (read : items? room fuel text = some (items, rest)) : ∀ item ∈ items, item.WellFormed
  inline {room : Nat} {text rest : List Char} {table : Table}
    (read : inline? room fuel text = some (table, rest)) : table.WellFormed
  members {room : Nat} {before after : Table} {text rest : List Char}
    (wellFormed : before.WellFormed)
    (read : members? room fuel before text = some (after, rest)) : after.WellFormed

namespace ReadsWellFormed

variable {fuel : Nat} {room : Nat} {text rest : List Char}

theorem value_succ (inner : ReadsWellFormed fuel) {toml : Toml}
    (read : value? room (fuel + 1) text = some (toml, rest)) : toml.WellFormed := by
  rw [value?.eq_def] at read
  dsimp only at read
  split at read
  · split at read
    · contradiction
    · obtain ⟨⟨items, behind⟩, found, read⟩ := Option.bind_eq_some_iff.mp read
      cases read
      exact .array (inner.items found)
  · split at read
    · contradiction
    · obtain ⟨⟨table, behind⟩, found, read⟩ := Option.bind_eq_some_iff.mp read
      cases read
      exact (inner.inline found).toml
  · cases read
    exact .bool true
  · cases read
    exact .bool false
  · exact wellFormed_of_scalar? read

theorem items_succ (inner : ReadsWellFormed fuel) {items : List Toml}
    (read : items? room (fuel + 1) text = some (items, rest)) : ∀ item ∈ items, item.WellFormed := by
  rw [items?.eq_def] at read
  dsimp only at read
  split at read
  · cases read
    exact List.forall_mem_nil _
  · obtain ⟨⟨first, behind⟩, found, read⟩ := Option.bind_eq_some_iff.mp read
    dsimp only at read
    split at read
    · cases read
      exact List.forall_mem_singleton.mpr (inner.value found)
    · obtain ⟨⟨others, behind⟩, more, read⟩ := Option.bind_eq_some_iff.mp read
      cases read
      exact List.forall_mem_cons.mpr ⟨inner.value found, inner.items more⟩
    · contradiction

theorem inline_succ (inner : ReadsWellFormed fuel) {table : Table}
    (read : inline? room (fuel + 1) text = some (table, rest)) : table.WellFormed := by
  rw [inline?.eq_def] at read
  dsimp only at read
  split at read
  · cases read
    exact Table.wellFormed_new .declared
  · exact inner.members (Table.wellFormed_new .declared) read

theorem members_succ (inner : ReadsWellFormed fuel) {before after : Table}
    (wellFormed : before.WellFormed)
    (read : members? room (fuel + 1) before text = some (after, rest)) : after.WellFormed := by
  rw [members?.eq_def] at read
  dsimp only at read
  obtain ⟨⟨key, behind⟩, _, read⟩ := Option.bind_eq_some_iff.mp read
  dsimp only at read
  split at read
  · obtain ⟨⟨value, behind⟩, found, read⟩ := Option.bind_eq_some_iff.mp read
    obtain ⟨filled, assigned, read⟩ := Option.bind_eq_some_iff.mp read
    have filledWellFormed := wellFormed.assign (inner.value found) assigned
    dsimp only at read
    split at read
    · cases read
      exact filledWellFormed
    · exact inner.members filledWellFormed read
    · contradiction
  · contradiction

end ReadsWellFormed

theorem readsWellFormed (fuel : Nat) : ReadsWellFormed fuel := by
  induction fuel with
  | zero =>
    constructor
    · intro room text rest toml read
      rw [value?] at read
      contradiction
    · intro room text rest items read
      rw [items?] at read
      contradiction
    · intro room text rest table read
      rw [inline?] at read
      contradiction
    · intro room before after text rest wellFormed read
      rw [members?] at read
      contradiction
  | succ fuel inner =>
    exact ⟨inner.value_succ, inner.items_succ, inner.inline_succ, inner.members_succ⟩

/-- The value of an assignment; headers have none. -/
def Statement.WellFormed : Statement → Prop
  | .assignment _ value => value.WellFormed
  | _ => True

theorem wellFormed_of_statement? {text rest : List Char} {statement : Statement}
    (read : statement? text = some (statement, rest)) : statement.WellFormed := by
  unfold statement? at read
  split at read
  · obtain ⟨⟨key, behind⟩, _, read⟩ := Option.bind_eq_some_iff.mp read
    dsimp only at read
    split at read
    · obtain ⟨behind, _, read⟩ := Option.bind_eq_some_iff.mp read
      cases read
      trivial
    · contradiction
  · obtain ⟨⟨key, behind⟩, _, read⟩ := Option.bind_eq_some_iff.mp read
    dsimp only at read
    split at read
    · obtain ⟨behind, _, read⟩ := Option.bind_eq_some_iff.mp read
      cases read
      trivial
    · contradiction
  · obtain ⟨⟨key, behind⟩, _, read⟩ := Option.bind_eq_some_iff.mp read
    dsimp only at read
    split at read
    · obtain ⟨⟨value, behind⟩, found, read⟩ := Option.bind_eq_some_iff.mp read
      obtain ⟨behind, _, read⟩ := Option.bind_eq_some_iff.mp read
      cases read
      exact (readsWellFormed _).value found
    · contradiction

theorem wellFormed_of_statements? {fuel : Nat} {text : List Char} {statements : List Statement}
    (read : statements? fuel text = some statements) :
    ∀ statement ∈ statements, statement.WellFormed := by
  induction fuel generalizing text statements with
  | zero => cases read
  | succ fuel ih =>
    rw [statements?] at read
    split at read
    · cases read
      exact List.forall_mem_nil _
    · split at read
      · exact ih read
      · obtain ⟨⟨first, behind⟩, found, read⟩ := Option.bind_eq_some_iff.mp read
        obtain ⟨others, more, read⟩ := Option.bind_eq_some_iff.mp read
        cases read
        exact List.forall_mem_cons.mpr ⟨wellFormed_of_statement? found, ih more⟩

theorem Draft.wellFormed_apply {draft changed : Draft} {statement : Statement}
    (wellFormed : draft.root.WellFormed) (given : statement.WellFormed)
    (result : draft.apply statement = some changed) : changed.root.WellFormed := by
  cases statement with
  | assignment key value =>
    obtain ⟨root, assigned, result⟩ := Option.bind_eq_some_iff.mp result
    cases result
    exact wellFormed.alter (fun before assigned => before.assign given assigned) assigned
  | header key =>
    obtain ⟨root, declared, result⟩ := Option.bind_eq_some_iff.mp result
    cases result
    exact wellFormed.declare declared
  | arrayHeader key =>
    obtain ⟨root, appended, result⟩ := Option.bind_eq_some_iff.mp result
    cases result
    exact wellFormed.append appended

theorem Draft.wellFormed_foldlM {statements : List Statement} {draft changed : Draft}
    (wellFormed : draft.root.WellFormed) (given : ∀ statement ∈ statements, statement.WellFormed)
    (result : statements.foldlM Draft.apply draft = some changed) : changed.root.WellFormed := by
  induction statements generalizing draft with
  | nil =>
    cases result
    exact wellFormed
  | cons statement rest ih =>
    rw [List.forall_mem_cons] at given
    rw [List.foldlM_cons] at result
    obtain ⟨next, step, result⟩ := Option.bind_eq_some_iff.mp result
    exact ih (wellFormed_apply wellFormed given.1 step) given.2 result

/-- No table of a document has a name twice. -/
theorem wellFormed_of_ofText? {text : String} {document : Toml}
    (read : ofText? text = some document) : document.WellFormed := by
  obtain ⟨statements, found, read⟩ := Option.bind_eq_some_iff.mp read
  obtain ⟨draft, result, read⟩ := Option.bind_eq_some_iff.mp read
  cases read
  exact (Draft.wellFormed_foldlM (Table.wellFormed_new .declared) (wellFormed_of_statements? found)
    result).toml

end Toml

end MempoolWatch
