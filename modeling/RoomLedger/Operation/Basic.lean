import RoomLedger.Operation.Payload

namespace RoomLedger

inductive OperationKind where
  | transfer
  | createAccount
  | createRoom
  | updateRoom
  | addParticipant
  | removeParticipant
  | rotateKey
  | deleteRoom
  | createSport
  | updateSport
  | deleteSport
  | createEventGroup
  | updateEventGroup
  | deleteEventGroup
  deriving DecidableEq, Inhabited, Repr

namespace OperationKind

def all : List OperationKind :=
  [transfer, createAccount, createRoom, updateRoom, addParticipant, removeParticipant, rotateKey,
    deleteRoom, createSport, updateSport, deleteSport, createEventGroup, updateEventGroup,
    deleteEventGroup]

def tag : OperationKind → UInt8
  | transfer => 0
  | createAccount => 5
  | createRoom => 65
  | updateRoom => 66
  | addParticipant => 67
  | removeParticipant => 68
  | rotateKey => 69
  | deleteRoom => 70
  | createSport => 71
  | updateSport => 72
  | deleteSport => 73
  | createEventGroup => 74
  | updateEventGroup => 75
  | deleteEventGroup => 76

def name : OperationKind → String
  | transfer => "transfer"
  | createAccount => "account_create"
  | createRoom => "room_create"
  | updateRoom => "room_update"
  | addParticipant => "room_add_participant"
  | removeParticipant => "room_remove_participant"
  | rotateKey => "room_rotate_key"
  | deleteRoom => "room_delete"
  | createSport => "sport_create"
  | updateSport => "sport_update"
  | deleteSport => "sport_delete"
  | createEventGroup => "event_group_create"
  | updateEventGroup => "event_group_update"
  | deleteEventGroup => "event_group_delete"

def ofTag? (tag : UInt8) : Option OperationKind := all.find? fun k => k.tag == tag

abbrev Payload : OperationKind → Type
  | transfer => Transfer
  | createAccount => CreateAccount
  | createRoom => CreateRoom
  | updateRoom => UpdateRoom
  | addParticipant => AddParticipant
  | removeParticipant => RemoveParticipant
  | rotateKey => RotateKey
  | deleteRoom => DeleteRoom
  | createSport => CreateSport
  | updateSport => UpdateSport
  | deleteSport => DeleteSport
  | createEventGroup => CreateEventGroup
  | updateEventGroup => UpdateEventGroup
  | deleteEventGroup => DeleteEventGroup

end OperationKind

inductive Operation where
  | transfer (payload : Transfer)
  | createAccount (payload : CreateAccount)
  | createRoom (payload : CreateRoom)
  | updateRoom (payload : UpdateRoom)
  | addParticipant (payload : AddParticipant)
  | removeParticipant (payload : RemoveParticipant)
  | rotateKey (payload : RotateKey)
  | deleteRoom (payload : DeleteRoom)
  | createSport (payload : CreateSport)
  | updateSport (payload : UpdateSport)
  | deleteSport (payload : DeleteSport)
  | createEventGroup (payload : CreateEventGroup)
  | updateEventGroup (payload : UpdateEventGroup)
  | deleteEventGroup (payload : DeleteEventGroup)
  deriving DecidableEq, Inhabited

namespace Operation

def kind : Operation → OperationKind
  | transfer _ => .transfer
  | createAccount _ => .createAccount
  | createRoom _ => .createRoom
  | updateRoom _ => .updateRoom
  | addParticipant _ => .addParticipant
  | removeParticipant _ => .removeParticipant
  | rotateKey _ => .rotateKey
  | deleteRoom _ => .deleteRoom
  | createSport _ => .createSport
  | updateSport _ => .updateSport
  | deleteSport _ => .deleteSport
  | createEventGroup _ => .createEventGroup
  | updateEventGroup _ => .updateEventGroup
  | deleteEventGroup _ => .deleteEventGroup

def tag (op : Operation) : UInt8 := op.kind.tag
def name (op : Operation) : String := op.kind.name

def text (op : Operation) : String := op.name ++ "#" ++ Decimal.text op.tag.toNat

def fee : Operation → Funds
  | transfer p => p.fee
  | createAccount p => p.fee
  | createRoom p => p.fee
  | updateRoom p => p.fee
  | addParticipant p => p.fee
  | removeParticipant p => p.fee
  | rotateKey p => p.fee
  | deleteRoom p => p.fee
  | createSport p => p.fee
  | updateSport p => p.fee
  | deleteSport p => p.fee
  | createEventGroup p => p.fee
  | updateEventGroup p => p.fee
  | deleteEventGroup p => p.fee

-- Sports and event groups are the witness account's.
def payer : Operation → AccountId
  | transfer p => p.sender
  | createAccount p => p.registrar
  | createRoom p => p.owner
  | updateRoom p => p.owner
  | addParticipant p => p.owner
  | removeParticipant p => p.owner
  | rotateKey p => p.owner
  | deleteRoom p => p.owner
  | _ => witnessAccount

def authorities (op : Operation) : List AccountId := [op.payer]

def dataSize : Operation → Nat
  | transfer p => p.memo.elim 0 String.utf8ByteSize
  | createAccount p => p.name.utf8ByteSize
  | _ => 0

def ofPayload : (k : OperationKind) → k.Payload → Operation
  | .transfer, p => transfer p
  | .createAccount, p => createAccount p
  | .createRoom, p => createRoom p
  | .updateRoom, p => updateRoom p
  | .addParticipant, p => addParticipant p
  | .removeParticipant, p => removeParticipant p
  | .rotateKey, p => rotateKey p
  | .deleteRoom, p => deleteRoom p
  | .createSport, p => createSport p
  | .updateSport, p => updateSport p
  | .deleteSport, p => deleteSport p
  | .createEventGroup, p => createEventGroup p
  | .updateEventGroup, p => updateEventGroup p
  | .deleteEventGroup, p => deleteEventGroup p

def payload : (op : Operation) → op.kind.Payload
  | transfer p => p
  | createAccount p => p
  | createRoom p => p
  | updateRoom p => p
  | addParticipant p => p
  | removeParticipant p => p
  | rotateKey p => p
  | deleteRoom p => p
  | createSport p => p
  | updateSport p => p
  | deleteSport p => p
  | createEventGroup p => p
  | updateEventGroup p => p
  | deleteEventGroup p => p

end Operation

instance (k : OperationKind) : Laid k.Payload :=
  match k with
  | .transfer => inferInstanceAs (Laid Transfer)
  | .createAccount => inferInstanceAs (Laid CreateAccount)
  | .createRoom => inferInstanceAs (Laid CreateRoom)
  | .updateRoom => inferInstanceAs (Laid UpdateRoom)
  | .addParticipant => inferInstanceAs (Laid AddParticipant)
  | .removeParticipant => inferInstanceAs (Laid RemoveParticipant)
  | .rotateKey => inferInstanceAs (Laid RotateKey)
  | .deleteRoom => inferInstanceAs (Laid DeleteRoom)
  | .createSport => inferInstanceAs (Laid CreateSport)
  | .updateSport => inferInstanceAs (Laid UpdateSport)
  | .deleteSport => inferInstanceAs (Laid DeleteSport)
  | .createEventGroup => inferInstanceAs (Laid CreateEventGroup)
  | .updateEventGroup => inferInstanceAs (Laid UpdateEventGroup)
  | .deleteEventGroup => inferInstanceAs (Laid DeleteEventGroup)

-- In both forms the tag stands before the payload and says how the payload is laid out.
instance : Wire Operation where
  write op := op.tag :: Wire.write op.payload
  read := do
    let tag ← Wire.read
    match OperationKind.ofTag? tag with
    | some k => return .ofPayload k (← Wire.read)
    | none => fun _ => .error (.unknownOperation tag)

instance : Form Operation where
  write op := .list [Form.write op.tag, Form.write op.payload]
  read
    | .list [tag, payload] => do
      let k ← OperationKind.ofTag? (← Form.read tag)
      return .ofPayload k (← Form.read payload)
    | _ => none

end RoomLedger
