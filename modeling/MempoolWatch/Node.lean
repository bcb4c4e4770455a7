import MempoolWatch.Fault
import MempoolWatch.Pool
import MempoolWatch.Transaction

/-! What a node answers. The answers do not change while it is asked. -/
namespace MempoolWatch

structure Node where
  /-- No transaction when the node does not know the hash any more. -/
  transaction : Hash → Except Fault (Option Transaction)
  gasPrice : Except Fault Word
  blockNumber : Except Fault Nat
  poolStatus : Except Fault PoolStatus
  poolContent : Except Fault PoolContent

end MempoolWatch
