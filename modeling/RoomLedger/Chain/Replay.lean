import RoomLedger.Chain.Basic

namespace RoomLedger

structure Replay where
  blocks : Nat
  applied : Nat
  rejected : Nat
  operations : Nat
  head : UInt32
  digest : Digest
  deriving DecidableEq

namespace Replay

def members (r : Replay) : List (String × Json) :=
  [("blocks_applied", .ofNat r.blocks), ("transactions_applied", .ofNat r.applied),
    ("transactions_rejected", .ofNat r.rejected), ("operations_applied", .ofNat r.operations),
    ("head_block_num", .ofNat r.head.toNat), ("state_digest", .ofText r.digest.hex)]

end Replay

namespace Chain

variable {ω : Type} [Observer ω]

-- Applies blocks in order, up to the first that fails. Those before it stay.
def replay (blocks : List Block) : Action ω Replay := do
  let receipts ← blocks.mapM applyBlock
  let c ← get
  let head ← liftM c.head
  return ⟨receipts.length, (receipts.flatMap fun r => r.applied).length,
    (receipts.flatMap fun r => r.rejected).length,
    (receipts.map BlockReceipt.operationCount).foldr (· + ·) 0, head.number, c.db.digest⟩

def replaysAlike (config : Config) (genesis : Genesis) (blocks : List Block) : Except ChainError Bool := do
  let once : Except ChainError (List UInt8) := do
    let chain ← start (ω := Watcher) config genesis []
    let (result, chain) := replay blocks chain
    let _ ← result
    return chain.db.serialize
  let first ← once
  let second ← once
  return first == second

end Chain

end RoomLedger
