/-! What a transaction does, as a set of tags. The tags do not exclude each
other; a transaction without any is unknown. -/
namespace MempoolWatch

inductive Tag
  | ethTransfer
  | swap
  | liquidation
  | liquidityOp
deriving DecidableEq

namespace Tag

def all : List Tag :=
  [ethTransfer, swap, liquidation, liquidityOp]

def name : Tag → String
  | ethTransfer => "eth-transfer"
  | swap => "swap"
  | liquidation => "liquidation"
  | liquidityOp => "liquidity-op"

def ofName? (name : String) : Option Tag :=
  all.find? (·.name = name)

end Tag

/-- A set of tags, one flag for each. -/
structure TagSet where
  ethTransfer : Bool := false
  swap : Bool := false
  liquidation : Bool := false
  liquidityOp : Bool := false
deriving DecidableEq

namespace TagSet

def empty : TagSet := {}

def contains (tags : TagSet) : Tag → Bool
  | .ethTransfer => tags.ethTransfer
  | .swap => tags.swap
  | .liquidation => tags.liquidation
  | .liquidityOp => tags.liquidityOp

def insert (tags : TagSet) : Tag → TagSet
  | .ethTransfer => { tags with ethTransfer := true }
  | .swap => { tags with swap := true }
  | .liquidation => { tags with liquidation := true }
  | .liquidityOp => { tags with liquidityOp := true }

/-- The tags of the set in their fixed order. -/
def toList (tags : TagSet) : List Tag :=
  Tag.all.filter tags.contains

def ofList (tags : List Tag) : TagSet :=
  tags.foldl insert empty

def size (tags : TagSet) : Nat :=
  tags.toList.length

def isEmpty (tags : TagSet) : Bool :=
  tags.toList.isEmpty

/-- The names joined by a plus sign, `unknown` for the empty set. -/
def text (tags : TagSet) : String :=
  if tags.isEmpty then "unknown" else "+".intercalate (tags.toList.map Tag.name)

@[simp] theorem contains_empty (tag : Tag) : empty.contains tag = false := by
  cases tag <;> rfl

@[simp] theorem contains_insert (tags : TagSet) (new tag : Tag) :
    (tags.insert new).contains tag = (decide (tag = new) || tags.contains tag) := by
  cases new <;> cases tag <;> simp [insert, contains]

theorem ext_contains {a b : TagSet} (same : ∀ tag, a.contains tag = b.contains tag) : a = b := by
  have eth := same .ethTransfer
  have swap := same .swap
  have liquidation := same .liquidation
  have liquidity := same .liquidityOp
  cases a
  cases b
  simp_all [contains]

@[simp] theorem mem_toList (tags : TagSet) (tag : Tag) :
    tag ∈ tags.toList ↔ tags.contains tag = true := by
  have known : tag ∈ Tag.all := by cases tag <;> decide
  simp [toList, known]

end TagSet

end MempoolWatch
