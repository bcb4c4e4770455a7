import MempoolWatch.Json.Record

/-! The pool of pending transactions as a node reports it: the two counts, or the
content grouped by sender and nonce. -/
namespace MempoolWatch

structure PoolStatus where
  pending : Nat
  queued : Nat
deriving DecidableEq

namespace PoolStatus

def empty : PoolStatus := ⟨0, 0⟩

/-- Reads counts given as numbers. -/
def ofSource? (source : Json.Source) : Option PoolStatus := do
  let field ← source.record? ["pending", "queued"]
  return {
    pending := ← Json.required? (field "pending") Json.Source.natural?
    queued := ← Json.required? (field "queued") Json.Source.natural? }

def json (status : PoolStatus) : Json :=
  .record [("pending", .integer status.pending), ("queued", .integer status.queued)]

end PoolStatus

/-- Transactions by nonce, by sender. -/
abbrev PoolSection := Named (Named Json)

structure PoolContent where
  pending : PoolSection
  queued : PoolSection

namespace PoolContent

/-- Reads the members of an object; of a repeated name the last value counts. -/
def entries? {α : Type} (read : Json.Source → Option α) :
    Json.Source → Option (Named α)
  | .object members => do
    let members ← members.mapM fun (name, source) => do return (← name, ← read source)
    return Named.ofList members
  | _ => none

/-- Reads a section that stands three levels deep in the text. -/
def bySender? : Json.Source → Option PoolSection :=
  entries? (entries? (Json.Source.valueWithin? (Json.depthLimit - 3)))

def ofSource? (source : Json.Source) : Option PoolContent := do
  let field ← source.record? ["pending", "queued"]
  return {
    pending := ← Json.optional? (field "pending") [] bySender?
    queued := ← Json.optional? (field "queued") [] bySender? }

/-- The number of transactions of all senders. -/
def count : PoolSection → Nat
  | [] => 0
  | (_, byNonce) :: rest => byNonce.length + count rest

/-- The counts that the content amounts to. -/
def status (content : PoolContent) : PoolStatus :=
  ⟨count content.pending, count content.queued⟩

end PoolContent

end MempoolWatch
