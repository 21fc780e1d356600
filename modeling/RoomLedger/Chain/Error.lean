import RoomLedger.Operation.Validity
import RoomLedger.Store.Database

namespace RoomLedger

inductive Refusal where
  | malformed (defect : Operation.Defect)
  | notFound (id : ObjectId)
  | missingAuthority (account : AccountId)
  | notRoomOwner (room : RoomId) (account : AccountId)
  | duplicateRoomName (owner : AccountId) (name : String)
  | roomNameTooLong (size max : Nat)
  | alreadyParticipant (room : RoomId) (account : AccountId)
  | roomFull (room : RoomId) (max : Nat)
  | cannotRemoveOwner (room : RoomId)
  | epochNotPast (epoch current : UInt32)
  | keysMismatch (missing unexpected : List AccountId)
  | ownerKeyMismatch
  | epochsExhausted (room : RoomId)
  | duplicateAccountName (name : String)
  | feeNotCore (asset : AssetId)
  | insufficientFee (required offered : Shares)
  | insufficientBalance (account : AccountId) (asset : AssetId) (required available : Shares)
  | unresolved (id : ObjectId) (reason : String)
  | wrongObjectType (id : ObjectId) (k : Kind)
  | blockOutOfOrder (head got : UInt32)
  | timeRegressed (head got : Timestamp)
  | database (cause : DbError)
  deriving DecidableEq

-- A change that failed although it had been approved.
inductive Breach where
  | database (operation : String) (cause : DbError)
  | invariant (operation reason : String)
  deriving DecidableEq

-- A refusal leaves everything as it was. Every other failure but a misused session is fatal.
inductive ChainError where
  | refused (cause : Refusal)
  | breached (cause : Breach)
  | rollback (cause : DbError)
  | notification (observer event reason : String)
  | noActiveSession
  | sessionAlreadyOpen
  | halted (reason : String)
  | genesis (reason : String)
  | config (reason : String)
  | database (cause : DbError)
  deriving DecidableEq

-- Ids in a text list stand without quotes.
def idsText (ids : List AccountId) : String := "[" ++ ", ".intercalate (ids.map RecordId.text) ++ "]"

def Refusal.message : Refusal → String
  | malformed defect => defect.message
  | notFound id => "object not found: " ++ id.text
  | missingAuthority account => "missing required authority of account " ++ account.text
  | notRoomOwner room account => "account " ++ account.text ++ " does not own room " ++ room.text
  | duplicateRoomName owner name => "room name '" ++ name ++ "' already used by account " ++ owner.text
  | roomNameTooLong size max =>
    "room name is " ++ Decimal.text size ++ " bytes (max " ++ Decimal.text max ++ ")"
  | alreadyParticipant room account => "account " ++ account.text ++ " is already in room " ++ room.text
  | roomFull room max => "room " ++ room.text ++ " already has " ++ Decimal.text max ++ " participants"
  | cannotRemoveOwner room => "cannot remove the owner from room " ++ room.text
  | epochNotPast epoch current =>
    "epoch key for epoch " ++ Decimal.text epoch.toNat ++ " is not before current epoch "
      ++ Decimal.text current.toNat
  | keysMismatch missing unexpected =>
    "rotation keys do not match participants: missing " ++ idsText missing ++ ", unexpected "
      ++ idsText unexpected
  | ownerKeyMismatch => "owner's rotation key must equal the new room key"
  | epochsExhausted room => "room " ++ room.text ++ " cannot rotate past the last epoch"
  | duplicateAccountName name => "account name '" ++ name ++ "' is already taken"
  | feeNotCore asset => "fee must be paid in the core asset, got " ++ asset.text
  | insufficientFee required offered =>
    "declared fee " ++ Decimal.signedText offered.toInt ++ " is below the required "
      ++ Decimal.signedText required.toInt
  | insufficientBalance account asset required available =>
    "account " ++ account.text ++ " has " ++ Decimal.signedText available.toInt ++ " of " ++ asset.text
      ++ ", needs " ++ Decimal.signedText required.toInt
  | unresolved id reason => "relative id " ++ id.text ++ " does not resolve: " ++ reason
  | wrongObjectType id k => id.text ++ " is not a " ++ k.name ++ " id"
  | blockOutOfOrder head got =>
    "block " ++ Decimal.text got.toNat ++ " does not follow head block " ++ Decimal.text head.toNat
  | timeRegressed head got =>
    "block time " ++ Decimal.text got.seconds.toNat ++ " is before head block time "
      ++ Decimal.text head.seconds.toNat
  | database cause => "database rejected the operation: " ++ cause.message

def Refusal.ofDatabase : DbError → Refusal
  | .notFound id => notFound id
  | cause => database cause

def Breach.message : Breach → String
  | database operation cause => operation ++ " apply failed in the database: " ++ cause.message
  | invariant operation reason => operation ++ " apply broke an invariant: " ++ reason

namespace ChainError

def message : ChainError → String
  | refused cause => cause.message
  | breached cause => cause.message
  | rollback cause => "session rollback failed: " ++ cause.message
  | notification observer event reason => "observer '" ++ observer ++ "' failed on " ++ event ++ ": " ++ reason
  | noActiveSession => "no block session is open"
  | sessionAlreadyOpen => "a block session is already open"
  | halted reason => "chain halted: " ++ reason
  | genesis reason => "genesis error: " ++ reason
  | config reason => "configuration error: " ++ reason
  | database cause => "database error: " ++ cause.message

def isFatal : ChainError → Bool
  | refused _ | noActiveSession | sessionAlreadyOpen => false
  | _ => true

end ChainError

end RoomLedger
