import MempoolWatch.Proofs.Toml.Layout

/-! Documents whose assignments have no points in their keys and whose headers add to no array. Their
lines can stand in any order, as long as every assignment keeps its header: also a header for a
table and one for a table in it. -/
namespace MempoolWatch.Toml

namespace Table

variable {change another : Table → Option Table}

/-- A change that takes a declared table for one that headers imply. -/
structure Regular (change : Table → Option Table) : Prop where
  origin_eq {table changed : Table} (result : change table = some changed) :
    changed.origin = table.origin
  declared_eq (members : Named Node) : change ⟨.declared, members⟩ =
    (change ⟨.impliedByHeader, members⟩).map fun changed => ⟨.declared, changed.members⟩

theorem regular_replace (name : String) {entry : Origin → Option Node → Option Node}
    (same : ∀ node?, entry .declared node? = entry .impliedByHeader node?) :
    Regular (replace name entry) := by
  refine ⟨(localAt_replace name entry).origin_eq, ?_⟩
  intro members
  rw [replace, replace, Option.map_map, same]
  rfl

theorem Regular.alter (regular : Regular change) (path : List String) :
    Regular (alter .impliedByHeader change path) := by
  cases path with
  | nil => exact regular
  | cons name path =>
    rw [alter_cons]
    exact regular_replace name fun _ => rfl

theorem entryInto_table (inner : Origin) (members : Named Node) :
    entryInto .impliedByHeader change (some (.table inner members)) =
      (change ⟨inner, members⟩).map node := by
  rw [entryInto, if_neg (by simp)]

/-- Two changes of the table that stands under a name. -/
theorem entryInto_bind (regular : Regular change) (node? : Option Node) :
    ((entryInto .impliedByHeader change node?).bind fun node =>
      entryInto .impliedByHeader another (some node)) =
      entryInto .impliedByHeader (fun table => change table >>= another) node? := by
  have inside (table : Table) : (((change table).map node).bind fun node =>
      entryInto .impliedByHeader another (some node)) = (change table >>= another).map node := by
    cases change table with
    | none => rfl
    | some changed => exact entryInto_table changed.origin changed.members
  rcases node? with _ | _ | ⟨inner, members⟩ | ⟨latest, earlier⟩
  · exact inside (new .impliedByHeader)
  · rfl
  · rw [entryInto_table, entryInto_table]
    exact inside ⟨inner, members⟩
  · rw [entryInto, entryInto]
    cases result : change ⟨.declared, latest⟩ with
    | none => rfl
    | some changed =>
      have origin := regular.origin_eq result
      obtain ⟨_, members⟩ := changed
      cases origin
      rfl

/-- A header that declares a table, before a change of this table or behind it. -/
theorem map_node_declared (regular : Regular change) (members : Named Node) :
    (change ⟨.declared, members⟩).map node =
      ((change ⟨.impliedByHeader, members⟩).map node).bind fun node => entryDeclared (some node) := by
  rw [regular.declared_eq]
  cases result : change ⟨.impliedByHeader, members⟩ with
  | none => rfl
  | some changed =>
    have origin := regular.origin_eq result
    obtain ⟨_, members⟩ := changed
    cases origin
    rfl

theorem entryDeclared_bind_entryInto (regular : Regular change) (node? : Option Node) :
    ((entryDeclared node?).bind fun node => entryInto .impliedByHeader change (some node)) =
      (entryInto .impliedByHeader change node?).bind fun node => entryDeclared (some node) := by
  -- A table that a header or a key has made takes no header of its own.
  have refused (origin : Origin) (members : Named Node) (closed : origin ≠ .impliedByHeader) :
      (((change ⟨origin, members⟩).map node).bind fun node => entryDeclared (some node)) = none := by
    cases result : change ⟨origin, members⟩ with
    | none => rfl
    | some changed =>
      have origin := regular.origin_eq result
      obtain ⟨_, members⟩ := changed
      cases origin
      cases origin with
      | impliedByHeader => exact absurd rfl closed
      | declared | impliedByKey => rfl
  rcases node? with _ | _ | ⟨inner, members⟩ | ⟨latest, earlier⟩
  · exact (entryInto_table .declared []).trans (map_node_declared regular [])
  · rfl
  · rw [entryInto_table]
    cases inner with
    | impliedByHeader =>
      exact (entryInto_table .declared members).trans (map_node_declared regular members)
    | declared => exact (refused .declared members (by decide)).symm
    | impliedByKey => exact (refused .impliedByKey members (by decide)).symm
  · rw [entryInto]
    cases change ⟨.declared, latest⟩ <;> rfl

theorem entryAssigned_some (value : Toml) (origin : Origin) (node : Node) :
    entryAssigned value origin (some node) = none := by
  cases origin <;> rfl

theorem entryAssigned_bind (value : Toml) (origin : Origin) (node? : Option Node)
    {next : Node → Option Node} (refuses : ∀ value, next (.value value) = none) :
    (entryAssigned value origin node?).bind next = none := by
  cases node? with
  | some node =>
    rw [entryAssigned_some]
    rfl
  | none =>
    cases origin with
    | impliedByKey => rfl
    | declared | impliedByHeader => exact refuses value

end Table

/-- A header, or an assignment with the path of its header. -/
structure Line where
  path : List String
  name : String
  /-- A header has none. -/
  value? : Option Toml

namespace Line

/-- What becomes of the entry of the name. -/
def entry (line : Line) (origin : Origin) (node? : Option Node) : Option Node :=
  match line.value? with
  | none => Table.entryDeclared node?
  | some value => Table.entryAssigned value origin node?

/-- What the line makes of the table that it stands in. -/
def last (line : Line) : Table → Option Table :=
  Table.replace line.name line.entry

/-- What the line makes of a document. -/
def change (root : Table) (line : Line) : Option Table :=
  root.alter .impliedByHeader line.last line.path

variable (line other : Line)

theorem regular_last : Table.Regular line.last := by
  apply Table.regular_replace
  intro node?
  unfold entry
  cases line.value? with
  | none => rfl
  | some value => cases node? <;> rfl

/-- Two lines for the same name. -/
theorem entry_comm (origin : Origin) (node? : Option Node) :
    ((line.entry origin node?).bind fun node => other.entry origin (some node)) =
      (other.entry origin node?).bind fun node => line.entry origin (some node) := by
  unfold entry
  cases line.value? with
  | none =>
    cases other.value? with
    | none => rfl
    | some value =>
      simp only [Table.entryAssigned_some, Option.bind_fun_none]
      exact (Table.entryAssigned_bind value origin node? fun _ => rfl).symm
  | some value =>
    cases other.value? with
    | none =>
      simp only [Table.entryAssigned_some, Option.bind_fun_none]
      exact Table.entryAssigned_bind value origin node? fun _ => rfl
    | some _ => simp only [Table.entryAssigned_some, Option.bind_fun_none]

/-- A line for a name, and a change of the table that stands under this name. -/
theorem entry_comm_entryInto {change : Table → Option Table} (regular : Table.Regular change)
    (origin : Origin) (node? : Option Node) :
    ((line.entry origin node?).bind fun node =>
      Table.entryInto .impliedByHeader change (some node)) =
      (Table.entryInto .impliedByHeader change node?).bind fun node =>
        line.entry origin (some node) := by
  unfold entry
  cases line.value? with
  | none => exact Table.entryDeclared_bind_entryInto regular node?
  | some value =>
    simp only [Table.entryAssigned_some, Option.bind_fun_none]
    exact Table.entryAssigned_bind value origin node? fun _ => rfl

/-- A line in a table, and a change somewhere in a table of this table. -/
theorem last_comm_alter {change : Table → Option Table} (regular : Table.Regular change)
    (name : String) (path : List String) (table : Table) :
    (line.last table >>= Table.alter .impliedByHeader change (name :: path)) =
      (Table.alter .impliedByHeader change (name :: path) table >>= line.last) := by
  rw [Table.alter_cons]
  by_cases same : line.name = name
  · subst same
    rw [last, Table.replace_bind, Table.replace_bind]
    exact congrArg (Table.replace line.name · table) (funext fun origin => funext fun node? =>
      line.entry_comm_entryInto (regular.alter path) origin node?)
  · exact Table.replace_comm _ _ same table

theorem alter_last_comm (path otherPath : List String) (table : Table) :
    (table.alter .impliedByHeader line.last path >>=
        Table.alter .impliedByHeader other.last otherPath) =
      (table.alter .impliedByHeader other.last otherPath >>=
        Table.alter .impliedByHeader line.last path) := by
  induction path generalizing otherPath table with
  | nil =>
    cases otherPath with
    | nil =>
      show (line.last table >>= other.last) = (other.last table >>= line.last)
      unfold last
      by_cases same : line.name = other.name
      · rw [same, Table.replace_bind, Table.replace_bind]
        exact congrArg (Table.replace other.name · table) (funext fun origin => funext fun node? =>
          line.entry_comm other origin node?)
      · exact Table.replace_comm _ _ same table
    | cons name otherPath => exact line.last_comm_alter other.regular_last name otherPath table
  | cons name path ih =>
    cases otherPath with
    | nil => exact (other.last_comm_alter line.regular_last name path table).symm
    | cons otherName otherPath =>
      rw [Table.alter_cons, Table.alter_cons]
      by_cases same : name = otherName
      · subst same
        rw [Table.replace_bind, Table.replace_bind]
        refine congrArg (Table.replace name · table) (funext fun _ => funext fun node? => ?_)
        rw [Table.entryInto_bind (line.regular_last.alter path),
          Table.entryInto_bind (other.regular_last.alter otherPath)]
        exact congrArg (Table.entryInto _ · node?) (funext (ih otherPath))
      · exact Table.replace_comm _ _ same table

/-- Any two lines can change places. -/
theorem change_comm (root : Table) :
    (change root line >>= (change · other)) = (change root other >>= (change · line)) :=
  line.alter_last_comm other line.path other.path root

end Line

/-- The lines of assignments in the table at the end of a path. -/
def linesAt (path : List String) (assignments : List (Key × Toml)) : List Line :=
  assignments.map fun (key, value) => ⟨path, key.name, some value⟩

theorem foldlM_linesAt {path : List String} {assignments : List (Key × Toml)}
    (plain : ∀ assignment ∈ assignments, assignment.1.path = []) (root : Table) :
    (linesAt path assignments).foldlM Line.change root =
      assignments.foldlM (Table.fill path) root := by
  induction assignments generalizing root with
  | nil => rfl
  | cons assignment rest ih =>
    obtain ⟨⟨keyPath, name⟩, value⟩ := assignment
    obtain ⟨undotted, others⟩ := List.forall_mem_cons.mp plain
    cases undotted
    have filled : Line.change root ⟨path, name, some value⟩ = root.fill path (⟨[], name⟩, value) := by
      rw [Table.fill, Table.assign_plain]
      rfl
    show (Line.change root ⟨path, name, some value⟩ >>= _) = (root.fill path _ >>= _)
    rw [filled]
    exact congrArg _ (funext (ih others))

namespace Block

/-- The header adds to no array, and no assignment has a point in its key. -/
structure IsPlain (block : Block) : Prop where
  header : block.isArray = false
  assignments : ∀ assignment ∈ block.assignments, assignment.1.path = []

def lines (block : Block) : List Line :=
  ⟨block.key.path, block.key.name, none⟩ :: linesAt block.path block.assignments

theorem foldlM_lines {block : Block} (plain : block.IsPlain) (root : Table) :
    block.lines.foldlM Line.change root = change root block := by
  have opened : block.opened root = Line.change root ⟨block.key.path, block.key.name, none⟩ := by
    rw [Block.opened, plain.header, Table.declare_eq]
    rfl
  rw [lines, List.foldlM_cons, change, opened]
  exact congrArg _ (funext (foldlM_linesAt plain.assignments))

theorem foldlM_flatMap_lines {blocks : List Block} (plain : ∀ block ∈ blocks, block.IsPlain)
    (root : Table) : (blocks.flatMap lines).foldlM Line.change root = blocks.foldlM change root := by
  induction blocks generalizing root with
  | nil => rfl
  | cons block rest ih =>
    rw [List.forall_mem_cons] at plain
    rw [List.flatMap_cons, List.foldlM_append, foldlM_lines plain.1, List.foldlM_cons]
    exact congrArg _ (funext (ih plain.2))

end Block

namespace Layout

structure IsPlain (layout : Layout) : Prop where
  lead : ∀ assignment ∈ layout.lead, assignment.1.path = []
  blocks : ∀ block ∈ layout.blocks, block.IsPlain

def lines (layout : Layout) : List Line :=
  linesAt [] layout.lead ++ layout.blocks.flatMap Block.lines

theorem foldlM_lines {layout : Layout} (plain : layout.IsPlain) :
    layout.lines.foldlM Line.change (.new .declared) = layout.root? := by
  rw [lines, List.foldlM_append, foldlM_linesAt plain.lead, root?]
  exact congrArg _ (funext (Block.foldlM_flatMap_lines plain.blocks))

/-- Plain layouts of the same lines denote the same document, whatever the order of the lines. -/
theorem root?_eq_of_perm {layout other : Layout} (plain : layout.IsPlain)
    (otherPlain : other.IsPlain) (perm : layout.lines.Perm other.lines) :
    layout.root? = other.root? := by
  rw [← foldlM_lines plain, ← foldlM_lines otherPlain]
  exact Table.foldlM_eq_of_perm Line.change_comm perm _

end Layout

end MempoolWatch.Toml
