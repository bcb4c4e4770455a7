import MempoolWatch.Proofs.Named
import MempoolWatch.Toml.Document
import Mathlib.Data.List.Perm.Basic

/-! Steps on the way to a document. A key changes nothing in a table but the entry of the name that
it begins with. Steps of different names may therefore be taken in any order, and what stands under
a name is settled by the steps of this name. -/
namespace MempoolWatch.Toml

/-- The name that the key begins with. -/
def Key.first (key : Key) : String :=
  key.path.headD key.name

namespace Table

variable {table : Table} {name other : String} {change another : Table → Option Table}

theorem get?_set (table : Table) (name other : String) (node : Node) :
    (table.set name node).get? other = if other = name then some node else table.get? other :=
  Named.get?_set table.members name other node

theorem set_set (table : Table) (name : String) (node latest : Node) :
    (table.set name node).set name latest = table.set name latest :=
  congrArg (Table.mk table.origin) (Named.set_set table.members name node latest)

theorem set_comm (table : Table) (differ : name ≠ other) (node otherNode : Node) :
    (table.set other otherNode).set name node = (table.set name node).set other otherNode :=
  congrArg (Table.mk table.origin) (Named.set_comm table.members differ node otherNode)

/-- Puts in the place of an entry what becomes of it in a table of this origin. -/
def replace (name : String) (entry : Origin → Option Node → Option Node) (table : Table) :
    Option Table :=
  (entry table.origin (table.get? name)).map (table.set name)

theorem replace_bind (name : String) (entry next : Origin → Option Node → Option Node)
    (table : Table) :
    (replace name entry table >>= replace name next) =
      replace name (fun origin node? => (entry origin node?).bind fun node =>
        next origin (some node)) table := by
  rw [replace, replace]
  cases entry table.origin (table.get? name) with
  | none => rfl
  | some node =>
    show replace name next (table.set name node) = _
    rw [replace, get?_set, if_pos rfl, funext (set_set table name node)]
    rfl

/-- Entries of different names are replaced in either order. -/
theorem replace_comm (entry next : Origin → Option Node → Option Node) (differ : name ≠ other)
    (table : Table) :
    (replace name entry table >>= replace other next) =
      (replace other next table >>= replace name entry) := by
  have behind (node : Node) : replace other next (table.set name node) =
      (next table.origin (table.get? other)).map ((table.set name node).set other) := by
    rw [replace, get?_set, if_neg differ.symm]
    rfl
  have before (node : Node) : replace name entry (table.set other node) =
      (entry table.origin (table.get? name)).map ((table.set other node).set name) := by
    rw [replace, get?_set, if_neg differ]
    rfl
  rw [replace, replace]
  cases first : entry table.origin (table.get? name) with
  | none =>
    cases next table.origin (table.get? other) with
    | none => rfl
    | some otherNode =>
      show none = replace name entry (table.set other otherNode)
      rw [before, first]
      rfl
  | some node =>
    cases second : next table.origin (table.get? other) with
    | none =>
      show replace other next (table.set name node) = none
      rw [behind, second]
      rfl
    | some otherNode =>
      show replace other next (table.set name node) = replace name entry (table.set other otherNode)
      rw [behind, before, first, second]
      exact congrArg some (set_comm table differ.symm otherNode node)

/-- The change sees and replaces the entry of one name alone. -/
def LocalAt (name : String) (change : Table → Option Table) : Prop :=
  ∃ entry, change = replace name entry

theorem localAt_replace (name : String) (entry : Origin → Option Node → Option Node) :
    LocalAt name (replace name entry) :=
  ⟨entry, rfl⟩

namespace LocalAt

/-- Another entry stays as it was. -/
theorem get?_eq (atName : LocalAt name change) (differ : other ≠ name) {changed : Table}
    (result : change table = some changed) : changed.get? other = table.get? other := by
  obtain ⟨entry, rfl⟩ := atName
  obtain ⟨node, _, rfl⟩ := Option.map_eq_some_iff.mp result
  rw [get?_set, if_neg differ]

theorem origin_eq (atName : LocalAt name change) {changed : Table}
    (result : change table = some changed) : changed.origin = table.origin := by
  obtain ⟨entry, rfl⟩ := atName
  obtain ⟨node, _, rfl⟩ := Option.map_eq_some_iff.mp result
  rfl

/-- What becomes of the entry depends on nothing else in the table. -/
theorem exists_of_get?_eq (atName : LocalAt name change) {similar changed : Table}
    (origin : similar.origin = table.origin) (same : similar.get? name = table.get? name)
    (result : change table = some changed) :
    ∃ also, change similar = some also ∧ also.get? name = changed.get? name := by
  obtain ⟨entry, rfl⟩ := atName
  obtain ⟨node, found, rfl⟩ := Option.map_eq_some_iff.mp result
  refine ⟨similar.set name node, ?_, ?_⟩
  · rw [replace, origin, same, found]
    rfl
  · rw [get?_set, get?_set, if_pos rfl, if_pos rfl]

theorem bind (first : LocalAt name change) (second : LocalAt name another) :
    LocalAt name fun table => change table >>= another := by
  obtain ⟨entry, rfl⟩ := first
  obtain ⟨next, rfl⟩ := second
  exact ⟨_, funext (replace_bind name entry next)⟩

theorem comm (atName : LocalAt name change) (atOther : LocalAt other another)
    (differ : name ≠ other) (table : Table) :
    (change table >>= another) = (another table >>= change) := by
  obtain ⟨entry, rfl⟩ := atName
  obtain ⟨next, rfl⟩ := atOther
  exact replace_comm entry next differ table

end LocalAt

/-- What becomes of an entry on a path, by a change of the table that stands there. -/
def entryInto (origin : Origin) (change : Table → Option Table) : Option Node → Option Node
  | none => (change (new origin)).map node
  | some (.value _) => none
  | some (.tables latest earlier) =>
    (change ⟨.declared, latest⟩).map fun changed => .tables changed.members earlier
  | some (.table inner members) =>
    if origin = .impliedByKey ∧ inner = .declared then none
    else (change ⟨inner, members⟩).map node

/-- A path with a first name leads to nothing but what stands under this name. -/
theorem alter_cons (origin : Origin) (change : Table → Option Table) (name : String)
    (path : List String) :
    alter origin change (name :: path) =
      replace name fun _ => entryInto origin (alter origin change path) := by
  funext table
  rw [alter, replace]
  rcases table.get? name with _ | _ | ⟨inner, members⟩ | ⟨latest, earlier⟩
  · rw [entryInto]
    cases alter origin change path (new origin) <;> rfl
  · rfl
  · rw [entryInto]
    by_cases closed : origin = .impliedByKey ∧ inner = .declared
    · simp only [if_pos closed]
      rfl
    · simp only [if_neg closed]
      cases alter origin change path ⟨inner, members⟩ <;> rfl
  · rw [entryInto]
    dsimp only
    cases alter origin change path ⟨.declared, latest⟩ <;> rfl

theorem localAt_alter (origin : Origin) (change : Table → Option Table) (name : String)
    (path : List String) : LocalAt name (alter origin change (name :: path)) := by
  rw [alter_cons]
  exact localAt_replace name _

theorem localAt_alter_of_localAt (origin : Origin) {change : Table → Option Table} (key : Key)
    (atName : LocalAt key.name change) : LocalAt key.first (alter origin change key.path) := by
  unfold Key.first
  cases key.path with
  | cons name path => exact localAt_alter _ _ name path
  | nil => exact atName

def entryDeclared : Option Node → Option Node
  | none => some (.table .declared [])
  | some (.table .impliedByHeader members) => some (.table .declared members)
  | some _ => none

theorem declare_eq (key : Key) :
    declare key = alter .impliedByHeader (replace key.name fun _ => entryDeclared) key.path := by
  unfold declare
  refine congrArg (alter _ · key.path) (funext fun parent => ?_)
  rw [replace]
  rcases parent.get? key.name with _ | _ | ⟨_ | _ | _, members⟩ | _ <;> rfl

theorem localAt_declare (key : Key) : LocalAt key.first (declare key) := by
  rw [declare_eq]
  exact localAt_alter_of_localAt _ key (localAt_replace _ _)

def entryAppended : Option Node → Option Node
  | none => some (.tables [] [])
  | some (.tables latest earlier) => some (.tables [] (latest :: earlier))
  | some _ => none

theorem append_eq (key : Key) :
    append key = alter .impliedByHeader (replace key.name fun _ => entryAppended) key.path := by
  unfold append
  refine congrArg (alter _ · key.path) (funext fun parent => ?_)
  rw [replace]
  rcases parent.get? key.name with _ | _ | _ | _ <;> rfl

theorem localAt_append (key : Key) : LocalAt key.first (append key) := by
  rw [append_eq]
  exact localAt_alter_of_localAt _ key (localAt_replace _ _)

/-- A key gives a table a value of its own, unless keys with points made the table. -/
def entryAssigned (value : Toml) : Origin → Option Node → Option Node
  | .impliedByKey, _ | _, some _ => none
  | _, none => some (.value value)

theorem assign_plain (name : String) (value : Toml) :
    assign ⟨[], name⟩ value = replace name (entryAssigned value) := by
  funext table
  rw [assign, alter, replace]
  cases table.origin <;> cases table.get? name <;> rfl

theorem localAt_assign (key : Key) (value : Toml) : LocalAt key.first (assign key value) := by
  obtain ⟨path, name⟩ := key
  cases path with
  | cons first path => exact localAt_alter _ _ first path
  | nil => exact ⟨entryAssigned value, assign_plain name value⟩

section Steps

/-! Steps that each change the entry of one name, which depends on the step alone. -/

variable {Step : Type} {place : Step → String} {perform : Table → Step → Option Table}

/-- The steps of one name, in their order. -/
def stepsAt (place : Step → String) (name : String) (steps : List Step) : List Step :=
  steps.filter (place · = name)

theorem stepsAt_cons_self (step : Step) (rest : List Step) :
    stepsAt place (place step) (step :: rest) = step :: stepsAt place (place step) rest := by
  rw [stepsAt, List.filter_cons, if_pos (decide_eq_true rfl)]
  rfl

theorem stepsAt_cons_of_ne {step : Step} (differ : place step ≠ name) (rest : List Step) :
    stepsAt place name (step :: rest) = stepsAt place name rest := by
  rw [stepsAt, List.filter_cons, if_neg (by simpa using differ)]
  rfl

theorem stepsAt_append (name : String) (front back : List Step) :
    stepsAt place name (front ++ back) = stepsAt place name front ++ stepsAt place name back :=
  List.filter_append front back

/-- A step can go in front of steps of other names. -/
theorem foldlM_append_cons (localAt : ∀ step, LocalAt (place step) (perform · step))
    (front : List Step) (step : Step) (back : List Step)
    (others : ∀ other ∈ front, place other ≠ place step) (table : Table) :
    (front ++ step :: back).foldlM perform table =
      (step :: (front ++ back)).foldlM perform table := by
  induction front generalizing table with
  | nil => rfl
  | cons first rest ih =>
    rw [List.forall_mem_cons] at others
    have swap := (localAt first).comm (localAt step) others.1 table
    calc ((first :: rest) ++ step :: back).foldlM perform table
      _ = perform table first >>= (step :: (rest ++ back)).foldlM perform := by
        rw [List.cons_append, List.foldlM_cons]
        exact congrArg _ (funext fun table => ih others.2 table)
      _ = (perform table first >>= (perform · step)) >>= (rest ++ back).foldlM perform := by
        rw [bind_assoc]
        rfl
      _ = (perform table step >>= (perform · first)) >>= (rest ++ back).foldlM perform := by
        rw [swap]
      _ = (step :: ((first :: rest) ++ back)).foldlM perform table := by
        rw [bind_assoc]
        rfl

/-- The same steps for each name, in the same order, come to the same. -/
theorem foldlM_eq_of_stepsAt (localAt : ∀ step, LocalAt (place step) (perform · step))
    {steps others : List Step} (same : ∀ name, stepsAt place name steps = stepsAt place name others)
    (table : Table) : steps.foldlM perform table = others.foldlM perform table := by
  induction steps generalizing others table with
  | nil =>
    cases others with
    | nil => rfl
    | cons step rest =>
      have same := same (place step)
      rw [stepsAt_cons_self] at same
      contradiction
  | cons step rest ih =>
    have own := same (place step)
    rw [stepsAt_cons_self] at own
    obtain ⟨front, back, rfl, before, _, behind⟩ := List.filter_eq_cons_iff.mp own.symm
    have before : ∀ other ∈ front, place other ≠ place step := by simpa using before
    have same : ∀ name, stepsAt place name rest = stepsAt place name (front ++ back) := by
      intro name
      have same := same name
      rw [stepsAt_append] at same ⊢
      by_cases own : place step = name
      · subst own
        have none : stepsAt place (place step) front = [] := by simpa [stepsAt] using before
        rw [none, List.nil_append]
        exact behind.symm
      · rwa [stepsAt_cons_of_ne own, stepsAt_cons_of_ne own] at same
    rw [foldlM_append_cons localAt front step back before, List.foldlM_cons, List.foldlM_cons]
    exact congrArg _ (funext fun table => ih same table)

/-- What stands under a name comes from the steps of this name. -/
theorem get?_of_foldlM (localAt : ∀ step, LocalAt (place step) (perform · step))
    {steps : List Step} {changed similar : Table} (result : steps.foldlM perform table = some changed)
    (origin : similar.origin = table.origin) (entry : similar.get? name = table.get? name) :
    ∃ also, (stepsAt place name steps).foldlM perform similar = some also ∧
      also.origin = changed.origin ∧ also.get? name = changed.get? name := by
  induction steps generalizing table similar with
  | nil =>
    cases result
    exact ⟨similar, rfl, origin, entry⟩
  | cons step rest ih =>
    rw [List.foldlM_cons] at result
    obtain ⟨next, performed, result⟩ := Option.bind_eq_some_iff.mp result
    have nextOrigin := (localAt step).origin_eq performed
    by_cases own : place step = name
    · subst own
      obtain ⟨also, alsoPerformed, same⟩ := (localAt step).exists_of_get?_eq origin entry performed
      have alsoOrigin := (localAt step).origin_eq alsoPerformed
      obtain ⟨final, finalResult, same⟩ :=
        ih result (alsoOrigin.trans (origin.trans nextOrigin.symm)) same
      refine ⟨final, ?_, same⟩
      rw [stepsAt_cons_self, List.foldlM_cons]
      exact Option.bind_eq_some_iff.mpr ⟨also, alsoPerformed, finalResult⟩
    · rw [stepsAt_cons_of_ne own]
      apply ih result (origin.trans nextOrigin.symm)
      rw [entry, (localAt step).get?_eq (Ne.symm own) performed]

/-- Steps of which every two can change places come to the same in any order. -/
theorem foldlM_eq_of_perm
    (comm : ∀ first second table, (perform table first >>= (perform · second)) =
      (perform table second >>= (perform · first)))
    {steps others : List Step} (perm : steps.Perm others) (table : Table) :
    steps.foldlM perform table = others.foldlM perform table := by
  rw [List.foldlM_eq_foldl, List.foldlM_eq_foldl]
  apply perm.foldl_eq'
  intro first _ second _ reached
  rw [bind_assoc, bind_assoc]
  exact congrArg _ (funext fun table => comm first second table)

end Steps

end Table

end MempoolWatch.Toml
