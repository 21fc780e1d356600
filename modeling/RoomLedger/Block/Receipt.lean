import RoomLedger.Block.Transaction
import RoomLedger.Operation.Outcome

namespace RoomLedger

structure TransactionReceipt where
  -- The position among all transactions that were pushed, rejected ones included.
  index : Nat
  transaction : Transaction
  results : List Outcome
  deriving DecidableEq

structure Rejection where
  index : Nat
  transaction : Transaction
  reason : String
  deriving DecidableEq

structure BlockReceipt where
  number : UInt32
  time : Timestamp
  applied : List TransactionReceipt
  rejected : List Rejection
  deriving DecidableEq

def TransactionReceipt.toJson (r : TransactionReceipt) : Json :=
  .ofMembers [("index", .ofNat r.index), ("transaction", Form.write r.transaction),
    ("results", Form.write r.results)]

def Rejection.toJson (r : Rejection) : Json :=
  .ofMembers [("index", .ofNat r.index), ("transaction", Form.write r.transaction),
    ("reason", .ofText r.reason)]

namespace BlockReceipt

def empty (number : UInt32) (time : Timestamp) : BlockReceipt := ⟨number, time, [], []⟩

def operations (r : BlockReceipt) : List (Operation × Outcome) :=
  r.applied.flatMap fun t => t.transaction.operations.zip t.results

def operationCount (r : BlockReceipt) : Nat := (r.applied.flatMap fun t => t.results).length

def members (r : BlockReceipt) : List (String × Json) :=
  [("block_num", Form.write r.number), ("timestamp", Form.write r.time),
    ("applied", .list (r.applied.map TransactionReceipt.toJson)),
    ("rejected", .list (r.rejected.map Rejection.toJson))]

end BlockReceipt

end RoomLedger
