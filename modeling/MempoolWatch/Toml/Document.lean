import MempoolWatch.Toml.Number
import MempoolWatch.Toml.Text

/-! A TOML document as the table it denotes. The statements of the document are
read one by one into a tree of tables, in which a table remembers how it came to
be: a table is declared once, and only tables that keys with points made may be
extended by such keys. -/
namespace MempoolWatch.Toml

inductive Origin
  /-- By its own header or braces, or as the document itself. -/
  | declared
  /-- On the way to the table of a header. -/
  | impliedByHeader
  /-- On the way of a key with points. -/
  | impliedByKey
deriving DecidableEq

inductive Node
  | value (value : Toml)
  | table (origin : Origin) (members : List (String × Node))
  /-- An array of tables: the latest, and the ones before it from last to first. -/
  | tables (latest : List (String × Node)) (earlier : List (List (String × Node)))

structure Table where
  origin : Origin
  members : Named Node

namespace Table

def new (origin : Origin) : Table := ⟨origin, []⟩

def get? (table : Table) (name : String) : Option Node :=
  Named.get? table.members name

def set (table : Table) (name : String) (node : Node) : Table :=
  { table with members := Named.set name node table.members }

def node (table : Table) : Node :=
  .table table.origin table.members

/-- Changes the table at the end of a path. Missing tables on the way are made with
the given origin, and of an array of tables the latest one is on the way. A key
with points does not pass through a declared table. -/
def alter (origin : Origin) (change : Table → Option Table) : List String → Table → Option Table
  | [], target => change target
  | name :: path, parent => do
    match parent.get? name with
    | none => return parent.set name (← alter origin change path (new origin)).node
    | some (.value _) => none
    | some (.tables latest earlier) =>
      let changed ← alter origin change path ⟨.declared, latest⟩
      return parent.set name (.tables changed.members earlier)
    | some (.table inner members) =>
      if origin = .impliedByKey ∧ inner = .declared then none
      else return parent.set name (← alter origin change path ⟨inner, members⟩).node

/-- Gives a key its value. The name must be new, and a key with points ends in a
table that such keys made. -/
def assign (key : Key) (value : Toml) (table : Table) : Option Table :=
  alter .impliedByKey (fun inner =>
    if (inner.origin = .impliedByKey) = key.path.isEmpty then none
    else match inner.get? key.name with
      | none => some (inner.set key.name (.value value))
      | some _ => none) key.path table

/-- Declares the table of a header. -/
def declare (key : Key) (table : Table) : Option Table :=
  alter .impliedByHeader (fun parent =>
    match parent.get? key.name with
    | none => some (parent.set key.name (.table .declared []))
    | some (.table .impliedByHeader members) =>
      some (parent.set key.name (.table .declared members))
    | some _ => none) key.path table

/-- Adds a table to the array of a header. -/
def append (key : Key) (table : Table) : Option Table :=
  alter .impliedByHeader (fun parent =>
    match parent.get? key.name with
    | none => some (parent.set key.name (.tables [] []))
    | some (.tables latest earlier) =>
      some (parent.set key.name (.tables [] (latest :: earlier)))
    | some _ => none) key.path table

end Table

mutual

def Node.toml : Node → Toml
  | .value toml => toml
  | .table _ members => .table (Node.members members)
  | .tables latest earlier => .array (Node.arrayOnto [.table (Node.members latest)] earlier)

def Node.members : List (String × Node) → List (String × Toml)
  | [] => []
  | (name, node) :: rest => (name, node.toml) :: Node.members rest

/-- Puts the tables in front, the first of the list last. -/
def Node.arrayOnto (items : List Toml) : List (List (String × Node)) → List Toml
  | [] => items
  | members :: rest => Node.arrayOnto (.table (Node.members members) :: items) rest

end

def Table.toml (table : Table) : Toml :=
  table.node.toml

/-- Skips blanks, line ends and comments between the items of an array. -/
def skipLines : (fuel : Nat) → List Char → List Char
  | 0, text => text
  | fuel + 1, text =>
    match skipSpace text with
    | '#' :: rest =>
      match newline? (rest.dropWhile isPlain) with
      | some rest => skipLines fuel rest
      | none => '#' :: rest
    | rest => rest

mutual

/-- Reads one value with room for `room` more levels of arrays and tables. Every
step takes a character or goes one level down, so twice the length of the text is
enough fuel. -/
def value? (room : Nat) : (fuel : Nat) → List Char → Option (Toml × List Char)
  | 0, _ => none
  | fuel + 1, text =>
    match text with
    | '[' :: rest =>
      match room with
      | 0 => none
      | room + 1 => do
        let (items, rest) ← items? room fuel rest
        return (.array items, rest)
    | '{' :: rest =>
      match room with
      | 0 => none
      | room + 1 => do
        let (inner, rest) ← inline? room fuel rest
        return (inner.toml, rest)
    | 't' :: 'r' :: 'u' :: 'e' :: rest => some (.bool true, rest)
    | 'f' :: 'a' :: 'l' :: 's' :: 'e' :: rest => some (.bool false, rest)
    | text =>
      ((quoted? text).map fun (content, rest) => (.string content, rest)).or
        ((moment? text).or (number? text))
termination_by structural fuel => fuel

/-- Reads the items of an array up to and with its closing bracket. -/
def items? (room : Nat) : (fuel : Nat) → List Char → Option (List Toml × List Char)
  | 0, _ => none
  | fuel + 1, text =>
    match skipLines (text.length + 1) text with
    | ']' :: rest => some ([], rest)
    | text => do
      let (item, rest) ← value? room fuel text
      match skipLines (rest.length + 1) rest with
      | ']' :: rest => return ([item], rest)
      | ',' :: rest =>
        let (items, rest) ← items? room fuel rest
        return (item :: items, rest)
      | _ => none

/-- Reads the members of an inline table up to and with its closing brace. -/
def inline? (room : Nat) : (fuel : Nat) → List Char → Option (Table × List Char)
  | 0, _ => none
  | fuel + 1, text =>
    match skipBlanks text with
    | '}' :: rest => some (.new .declared, rest)
    | text => members? room fuel (.new .declared) text

/-- Reads one member or more into a table. -/
def members? (room : Nat) : (fuel : Nat) → Table → List Char → Option (Table × List Char)
  | 0, _, _ => none
  | fuel + 1, before, text => do
    let (key, rest) ← key? text
    let '=' :: rest := rest | none
    let (value, rest) ← value? room fuel (skipBlanks rest)
    let after ← before.assign key value
    match skipBlanks rest with
    | '}' :: rest => return (after, rest)
    | ',' :: rest => members? room fuel after rest
    | _ => none

end

inductive Statement
  | assignment (key : Key) (value : Toml)
  | header (key : Key)
  | arrayHeader (key : Key)

/-- Reads a statement and the end of its line. -/
def statement? : List Char → Option (Statement × List Char)
  | '[' :: '[' :: text => do
    let (key, rest) ← key? text
    let ']' :: ']' :: rest := rest | none
    return (.arrayHeader key, ← lineEnd? rest)
  | '[' :: text => do
    let (key, rest) ← key? text
    let ']' :: rest := rest | none
    return (.header key, ← lineEnd? rest)
  | text => do
    let (key, rest) ← key? text
    let '=' :: rest := rest | none
    let (value, rest) ← value? (nestingLimit - 1) (2 * rest.length + 2) (skipBlanks rest)
    return (.assignment key value, ← lineEnd? rest)

/-- Reads all statements of a text; lines without one are passed over. -/
def statements? : (fuel : Nat) → List Char → Option (List Statement)
  | 0, _ => none
  | fuel + 1, text => do
    match skipBlanks text with
    | [] => return []
    | text =>
      match lineEnd? text with
      | some rest => statements? fuel rest
      | none =>
        let (statement, rest) ← statement? text
        return statement :: (← statements? fuel rest)

/-- A document while it is read: its table, and the path of the latest header. -/
structure Draft where
  root : Table
  current : List String

def Draft.empty : Draft := ⟨.new .declared, []⟩

def Draft.apply (draft : Draft) : Statement → Option Draft
  | .assignment key value => do
    let root ← draft.root.alter .impliedByHeader (Table.assign key value) draft.current
    return { draft with root }
  | .header key => do return ⟨← draft.root.declare key, key.path ++ [key.name]⟩
  | .arrayHeader key => do return ⟨← draft.root.append key, key.path ++ [key.name]⟩

/-- The table that statements denote; nothing when one contradicts another. -/
def ofStatements? (statements : List Statement) : Option Toml := do
  return (← statements.foldlM Draft.apply Draft.empty).root.toml

/-- The text without a byte order mark in front. -/
def dropOrderMark : List Char → List Char
  | '\uFEFF' :: rest => rest
  | text => text

/-- The table that a document denotes. -/
def ofText? (text : String) : Option Toml := do
  let chars := dropOrderMark text.toList
  ofStatements? (← statements? (chars.length + 1) chars)

end MempoolWatch.Toml
