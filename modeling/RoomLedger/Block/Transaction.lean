import RoomLedger.Operation.Validity
import RoomLedger.Operation.Fee

namespace RoomLedger

-- Operations that take effect together or not at all, with the accounts that signed them.
structure Transaction where
  operations : List Operation
  signers : SortedSet AccountId
  deriving DecidableEq, Inhabited

instance : Laid Transaction where
  Tuple := List Operation × SortedSet AccountId × Unit
  layout := .field "operations" none <| .field "signers" (some .empty) .done
  toTuple t := (t.operations, t.signers, ())
  ofTuple := fun (operations, signers, _) => ⟨operations, signers⟩

namespace Transaction

def maxOperations : Nat := 256

def single (op : Operation) : Transaction := ⟨[op], .empty⟩

def signedBy (t : Transaction) (account : AccountId) : Transaction :=
  { t with signers := t.signers.insert account }

def required (t : Transaction) : SortedSet AccountId :=
  .ofList (t.operations.flatMap Operation.authorities)

def missing (t : Transaction) : List AccountId :=
  t.required.toList.filter fun account => !t.signers.contains account

def validate (t : Transaction) : Except Operation.Defect Unit :=
  if t.operations.isEmpty then .error (.transaction "transaction has no operations")
  else if maxOperations < t.operations.length then
    .error (.transaction ("too many operations: " ++ Decimal.text t.operations.length
      ++ " (max " ++ Decimal.text maxOperations ++ ")"))
  else t.operations.forM Operation.validate

end Transaction

structure Block where
  number : UInt32
  time : Timestamp
  transactions : List Transaction
  deriving DecidableEq, Inhabited

instance : Laid Block where
  Tuple := UInt32 × Timestamp × List Transaction × Unit
  layout := .field "block_num" none <| .field "timestamp" none <| .field "transactions" none .done
  toTuple b := (b.number, b.time, b.transactions, ())
  ofTuple := fun (number, time, transactions, _) => ⟨number, time, transactions⟩

def Block.operationCount (b : Block) : Nat :=
  (b.transactions.flatMap fun t => t.operations).length

end RoomLedger
