import MempoolWatch.Call.Decoded
import MempoolWatch.Transaction

/-! Classification of transactions. A tagger assigns tags to selectors; a selector
with several entries gives all their tags. A transfer is a transaction with value
and without calldata. -/
namespace MempoolWatch

structure Tagger where
  entries : List (Selector × Tag)

namespace Tagger

/-- The tags of the recognised calls. -/
def standard : Tagger :=
  ⟨KnownCall.all.map fun call => (call.selector, call.tag)⟩

/-- Adds an entry. -/
def register (tagger : Tagger) (selector : Selector) (tag : Tag) : Tagger :=
  if (selector, tag) ∈ tagger.entries then tagger
  else ⟨tagger.entries ++ [(selector, tag)]⟩

/-- The standard tagger with further entries, added one after the other. -/
def withEntries (entries : List (Selector × Tag)) : Tagger :=
  entries.foldl (fun tagger (selector, tag) => tagger.register selector tag) standard

/-- The tags assigned to a selector. -/
def tagsOf (tagger : Tagger) (selector : Selector) : List Tag :=
  (tagger.entries.filter (·.1 = selector)).map Prod.snd

def tags (tagger : Tagger) (tx : Transaction) : TagSet :=
  let transfer := if tx.value ≠ 0 ∧ tx.hasEmptyInput then [Tag.ethTransfer] else []
  let called := match tx.selector? with
    | some selector => tagger.tagsOf selector
    | none => []
  TagSet.ofList (transfer ++ called)

end Tagger

/-- A transaction with its tags and, for a recognised call, its decoded calldata. -/
structure ClassifiedTx where
  tx : Transaction
  tags : TagSet
  call : Option DecodedCall

def ClassifiedTx.functionName? (classified : ClassifiedTx) : Option String :=
  classified.call.map (·.call.name)

def Tagger.classify (tagger : Tagger) (tx : Transaction) : ClassifiedTx :=
  ⟨tx, tagger.tags tx, DecodedCall.ofCalldata? tx.input⟩

end MempoolWatch
