import MempoolWatch.Proofs.Toml.Equality
import MempoolWatch.Proofs.Toml.Steps

/-! The layout of a document: assignments in front, and then headers, each with the assignments
behind it. All of them are about the table of the document that their key begins with. The order of
the tables decides nothing, and what a table holds is settled by what the layout has about it. -/
namespace MempoolWatch.Toml

/-- Makes an assignment in the table at the end of a path. -/
def Table.fill (path : List String) (root : Table) (assignment : Key × Toml) : Option Table :=
  root.alter .impliedByHeader (assign assignment.1 assignment.2) path

/-- A header with the assignments behind it. -/
structure Block where
  key : Key
  /-- The header adds a table to an array. -/
  isArray : Bool
  assignments : List (Key × Toml)
deriving DecidableEq

def assignmentStatements (assignments : List (Key × Toml)) : List Statement :=
  assignments.map fun (key, value) => .assignment key value

theorem foldlM_apply_assignmentStatements (assignments : List (Key × Toml)) (root : Table)
    (path : List String) :
    (assignmentStatements assignments).foldlM Draft.apply ⟨root, path⟩ =
      (assignments.foldlM (Table.fill path) root).map fun root => ⟨root, path⟩ := by
  induction assignments generalizing root with
  | nil => rfl
  | cons assignment rest ih =>
    rw [assignmentStatements, List.map_cons, List.foldlM_cons, List.foldlM_cons]
    show (do return (⟨← root.fill path assignment, path⟩ : Draft)) >>= _ = _
    cases root.fill path assignment with
    | none => rfl
    | some filled => exact ih filled

namespace Block

def header (block : Block) : Statement :=
  if block.isArray then .arrayHeader block.key else .header block.key

def statements (block : Block) : List Statement :=
  block.header :: assignmentStatements block.assignments

/-- The path of the table that the assignments are made in. -/
def path (block : Block) : List String :=
  block.key.path ++ [block.key.name]

/-- The document with the table of the header in it. -/
def opened (block : Block) (root : Table) : Option Table :=
  if block.isArray then root.append block.key else root.declare block.key

/-- What the block makes of a document. -/
def change (root : Table) (block : Block) : Option Table :=
  block.opened root >>= block.assignments.foldlM (Table.fill block.path)

theorem path_eq_cons (block : Block) :
    block.path = block.key.first :: (block.key.path ++ [block.key.name]).tail := by
  unfold path Key.first
  cases block.key.path <;> rfl

theorem localAt_opened (block : Block) : Table.LocalAt block.key.first block.opened := by
  unfold opened
  cases block.isArray with
  | false => exact Table.localAt_declare block.key
  | true => exact Table.localAt_append block.key

theorem localAt_fill (block : Block) (assignment : Key × Toml) :
    Table.LocalAt block.key.first (Table.fill block.path · assignment) := by
  unfold Table.fill
  rw [path_eq_cons]
  exact Table.localAt_alter _ _ _ _

/-- Assignments behind a change of the same table. -/
theorem localAt_bind_foldlM (block : Block) {before : Table → Option Table}
    (atTable : Table.LocalAt block.key.first before) (assignments : List (Key × Toml)) :
    Table.LocalAt block.key.first fun root =>
      before root >>= assignments.foldlM (Table.fill block.path) := by
  induction assignments generalizing before with
  | nil => simpa only [List.foldlM_nil, bind_pure] using atTable
  | cons assignment rest ih =>
    simpa only [List.foldlM_cons, bind_assoc] using ih (atTable.bind (block.localAt_fill assignment))

theorem localAt_change (block : Block) : Table.LocalAt block.key.first (change · block) :=
  block.localAt_bind_foldlM block.localAt_opened block.assignments

/-- The statements of a block change the document as the block does. -/
theorem foldlM_apply_statements (block : Block) (draft : Draft) :
    block.statements.foldlM Draft.apply draft =
      (change draft.root block).map fun root => ⟨root, block.path⟩ := by
  have opens : draft.apply block.header =
      (block.opened draft.root).map fun root => ⟨root, block.path⟩ := by
    unfold header opened
    cases block.isArray with
    | false =>
      show (do return (⟨← draft.root.declare block.key, block.path⟩ : Draft)) = _
      cases draft.root.declare block.key <;> rfl
    | true =>
      show (do return (⟨← draft.root.append block.key, block.path⟩ : Draft)) = _
      cases draft.root.append block.key <;> rfl
  rw [statements, List.foldlM_cons, opens, change]
  cases block.opened draft.root with
  | none => rfl
  | some opened => exact foldlM_apply_assignmentStatements block.assignments opened block.path

theorem foldlM_apply_flatMap (blocks : List Block) (draft : Draft) :
    ((blocks.flatMap statements).foldlM Draft.apply draft).map Draft.root =
      blocks.foldlM change draft.root := by
  induction blocks generalizing draft with
  | nil => rfl
  | cons block rest ih =>
    rw [List.flatMap_cons, List.foldlM_append, foldlM_apply_statements, List.foldlM_cons]
    cases change draft.root block with
    | none => rfl
    | some root => exact ih ⟨root, block.path⟩

end Block

structure Layout where
  /-- The assignments in front of the first header. -/
  lead : List (Key × Toml)
  blocks : List Block
deriving DecidableEq

namespace Layout

def statements (layout : Layout) : List Statement :=
  assignmentStatements layout.lead ++ layout.blocks.flatMap Block.statements

/-- Every assignment belongs to the header in front of it. -/
def ofStatements : List Statement → Layout
  | [] => ⟨[], []⟩
  | .assignment key value :: rest =>
    ⟨(key, value) :: (ofStatements rest).lead, (ofStatements rest).blocks⟩
  | .header key :: rest =>
    ⟨[], ⟨key, false, (ofStatements rest).lead⟩ :: (ofStatements rest).blocks⟩
  | .arrayHeader key :: rest =>
    ⟨[], ⟨key, true, (ofStatements rest).lead⟩ :: (ofStatements rest).blocks⟩

theorem statements_ofStatements (statements : List Statement) :
    (ofStatements statements).statements = statements := by
  induction statements with
  | nil => rfl
  | cons statement rest ih => cases statement <;> exact congrArg (List.cons _) ih

/-- The layout of a text. -/
def ofText? (text : String) : Option Layout :=
  (statements? ((dropOrderMark text.toList).length + 1) (dropOrderMark text.toList)).map ofStatements

/-- What the layout has about a table of the document, in its order. -/
def about (name : String) (layout : Layout) : Layout where
  lead := Table.stepsAt (·.1.first) name layout.lead
  blocks := Table.stepsAt (·.key.first) name layout.blocks

/-- The table that the layout denotes, unless one part of it contradicts another. -/
def root? (layout : Layout) : Option Table :=
  layout.lead.foldlM (Table.fill []) (.new .declared) >>= layout.blocks.foldlM Block.change

theorem ofStatements?_statements (layout : Layout) :
    ofStatements? layout.statements = layout.root?.map Table.toml := by
  rw [ofStatements?, statements, List.foldlM_append, Draft.empty,
    foldlM_apply_assignmentStatements, root?]
  cases layout.lead.foldlM (Table.fill []) (.new .declared) with
  | none => rfl
  | some root =>
    show _ = (layout.blocks.foldlM Block.change root).map Table.toml
    rw [← Block.foldlM_apply_flatMap layout.blocks ⟨root, []⟩, Option.map_map]
    exact Option.map_eq_bind.symm

theorem ofText?_eq (text : String) :
    Toml.ofText? text = (ofText? text).bind fun layout => layout.root?.map Table.toml := by
  rw [ofText?, Option.bind_map]
  simp only [Function.comp_def, ← ofStatements?_statements, statements_ofStatements]
  rfl

theorem localAt_lead (assignment : Key × Toml) :
    Table.LocalAt assignment.1.first (Table.fill [] · assignment) :=
  Table.localAt_assign assignment.1 assignment.2

/-- Layouts that have the same about every table denote the same document. -/
theorem root?_eq {layout other : Layout} (same : ∀ name, layout.about name = other.about name) :
    layout.root? = other.root? := by
  have leads (name : String) := congrArg lead (same name)
  have blocks (name : String) := congrArg Layout.blocks (same name)
  rw [root?, root?, Table.foldlM_eq_of_stepsAt localAt_lead leads]
  exact congrArg _ (funext fun root => Table.foldlM_eq_of_stepsAt Block.localAt_change blocks root)

/-- What stands under a name comes from what the layout has about this table. -/
theorem get?_root? {layout : Layout} {root : Table} {name : String}
    (denoted : layout.root? = some root) :
    ∃ alone, (layout.about name).root? = some alone ∧ alone.get? name = root.get? name := by
  obtain ⟨led, leads, blocks⟩ := Option.bind_eq_some_iff.mp denoted
  obtain ⟨alone, aloneLeads, origin, entry⟩ := Table.get?_of_foldlM localAt_lead leads rfl rfl
  obtain ⟨final, aloneBlocks, _, entry⟩ :=
    Table.get?_of_foldlM Block.localAt_change blocks origin entry
  exact ⟨final, Option.bind_eq_some_iff.mpr ⟨alone, aloneLeads, aloneBlocks⟩, entry⟩

theorem get?_eq_of_about {layout other : Layout} {root otherRoot : Table} {name : String}
    (same : layout.about name = other.about name) (denoted : layout.root? = some root)
    (otherDenoted : other.root? = some otherRoot) : root.get? name = otherRoot.get? name := by
  obtain ⟨alone, aloneDenoted, entry⟩ := get?_root? denoted
  obtain ⟨otherAlone, otherAloneDenoted, otherEntry⟩ := get?_root? otherDenoted
  rw [← same, aloneDenoted] at otherAloneDenoted
  cases otherAloneDenoted
  exact entry.symm.trans otherEntry

end Layout

end MempoolWatch.Toml
