import MempoolWatch.Node

/-! The state of the pool before listening starts. The counts come from the node's
own status or else from the content of the pool. -/
namespace MempoolWatch

inductive SnapshotSource
  | status
  | content
  /-- Neither could be read, and the counts are zero. -/
  | unavailable
deriving DecidableEq

structure Snapshot where
  source : SnapshotSource
  counts : PoolStatus
  block : Option Nat
deriving DecidableEq

namespace Snapshot

def sourceAndCounts (node : Node) : SnapshotSource × PoolStatus :=
  match node.poolStatus with
  | .ok counts => (.status, counts)
  | .error _ =>
    match node.poolContent with
    | .ok content => (.content, content.status)
    | .error _ => (.unavailable, .empty)

/-- Asks a node. -/
def ofNode (node : Node) : Snapshot :=
  let (source, counts) := sourceAndCounts node
  ⟨source, counts, node.blockNumber.toOption⟩

end Snapshot

end MempoolWatch
