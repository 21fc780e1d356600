import RoomLedger.Operation.Basic

namespace RoomLedger

namespace Operation

def maxAccountNameBytes : Nat := 63
def maxMemoBytes : Nat := 2048
def maxRoomNameBytes : Nat := 256

def isLower (c : Char) : Bool := decide ('a' ≤ c ∧ c ≤ 'z')
def isLowerOrDigit (c : Char) : Bool := isLower c || decide ('0' ≤ c ∧ c ≤ '9')

-- A label begins with a letter, ends with a letter or digit and may hold hyphens between.
def isLabel (label : List Char) : Bool :=
  match label.head?, label.getLast? with
  | some first, some last =>
    isLower first && isLowerOrDigit last && label.all fun c => isLowerOrDigit c || c == '-'
  | _, _ => false

def isAccountName (name : String) : Bool :=
  !name.isEmpty && decide (name.utf8ByteSize ≤ maxAccountNameBytes)
    && (ObjectId.dotted name.toList).all isLabel

inductive Defect where
  | operation (name reason : String)
  | transaction (reason : String)
  deriving DecidableEq, Repr

def Defect.message : Defect → String
  | operation name reason => "invalid " ++ name ++ ": " ++ reason
  | transaction reason => "invalid transaction: " ++ reason

-- Reasons are asked one after the other; the first that applies is the answer.
def require (holds : Bool) (reason : String) : Except String Unit :=
  if holds then .ok () else .error reason

def checkRoomName (name : String) : Except String Unit := do
  require (!name.isEmpty) "room name cannot be empty"
  require (decide (name.utf8ByteSize ≤ maxRoomNameBytes)) "room name too long (max 256 bytes)"

def checkLocalizedName (name : LocalizedName) : Except String Unit :=
  require name.isWellFormed "name needs at least one language with non-empty text"

def checkSport (id : ObjectId) : Except String Unit :=
  require (id.isRelative || Kind.sport.owns id)
    (id.text ++ " is neither a sport id nor a relative id")

def checkPayload : Operation → Except String Unit
  | transfer p => do
    require (decide (p.sender ≠ p.receiver)) "cannot transfer to self"
    require (decide (0 < p.amount.amount)) "amount must be positive"
    require (decide (p.memo.elim 0 String.utf8ByteSize ≤ maxMemoBytes)) "memo too long"
  | createAccount p => require (isAccountName p.name) ("invalid account name '" ++ p.name ++ "'")
  | createRoom p => do
    checkRoomName p.name
    require (!p.roomKey.isEmpty) "room key cannot be empty"
  | updateRoom p => checkRoomName p.name
  | addParticipant p => do
    require (!p.contentKey.isEmpty) "content key cannot be empty"
    require (p.epochKeys.values.all fun key => !key.isEmpty) "epoch keys cannot be empty"
  | rotateKey p => do
    require (!p.newRoomKey.isEmpty) "new room key cannot be empty"
    require (!p.participantKeys.isEmpty) "participant keys cannot be empty"
    require (p.participantKeys.values.all fun key => !key.isEmpty) "participant key cannot be empty"
  | createSport p => checkLocalizedName p.name
  | updateSport p =>
    match p.newName with
    | none => .error "nothing to change"
    | some name => checkLocalizedName name
  | createEventGroup p => do
    checkLocalizedName p.name
    checkSport p.sport
  | updateEventGroup p => do
    require (p.newSport.isSome || p.newName.isSome) "nothing to change"
    p.newName.forM checkLocalizedName
    p.newSport.forM checkSport
  | _ => .ok ()

def validate (op : Operation) : Except Defect Unit :=
  match (do require (decide (0 ≤ op.fee.amount)) "fee cannot be negative"; op.checkPayload) with
  | .ok () => .ok ()
  | .error reason => .error (.operation op.name reason)

end Operation

end RoomLedger
