import RoomLedger.Rule.Basic

namespace RoomLedger

def Context.ownedRoom (c : Context) (room : RoomId) (owner : AccountId) : Except Refusal Room := do
  let row ← c.get room
  if row.owner = owner then return row else .error (.notRoomOwner row.id owner)

def Context.checkRoomName (c : Context) (owner : AccountId) (name : String) : Except Refusal Unit :=
  let size := name.utf8ByteSize
  let max := c.config.maxRoomName.toNat
  if max < size then .error (.roomNameTooLong size max)
  else if (c.db.roomNamed? owner name).isSome then .error (.duplicateRoomName owner name)
  else .ok ()

-- One record for each account and epoch: a key that comes again, such as that of an account which
-- was removed and is back, takes the place of the old one.
def Write.epochKey (operation : String) (room : RoomId) (epoch : UInt32) (account : AccountId)
    (key : String) : Change Breach EpochKeyId := do
  match (← Write.current).epochKey? room epoch account with
  | some record =>
    Write.modify operation record.id fun k => { k with contentKey := key }
    return record.id
  | none =>
    let record ← Write.create operation .epochKey fun k =>
      { k with room := room, epoch := epoch, account := account, contentKey := key }
    return record.id

namespace Rule

-- The owner becomes the first participant, with the key of epoch 0.
def createRoom : Rule CreateRoom where
  Plan := Unit
  noPlan := ()
  examine c p := do
    let _ ← c.get p.owner
    c.checkRoomName p.owner p.name
  carryOut time _ p := do
    let name := OperationKind.createRoom.name
    let room ← Write.create name .room fun r =>
      { r with owner := p.owner, name := p.name, roomKey := p.roomKey, created := time, epoch := 0 }
    let _ ← Write.create name .participant fun m =>
      { m with room := room.id, account := p.owner, contentKey := p.roomKey, joined := time }
    let _ ← Write.epochKey name room.id 0 p.owner p.roomKey
    return .object room.id

-- A room may keep its name.
def updateRoom : Rule UpdateRoom where
  Plan := Unit
  noPlan := ()
  examine c p := do
    let room ← c.ownedRoom p.room p.owner
    if room.name ≠ p.name then c.checkRoomName p.owner p.name
  carryOut _ _ p := do
    Write.modify OperationKind.updateRoom.name p.room fun r => { r with name := p.name }
    return .object p.room

-- The plan is the current epoch. Keys may be handed out for past epochs only.
def addParticipant : Rule AddParticipant where
  Plan := UInt32
  noPlan := 0
  examine c p := do
    let room ← c.ownedRoom p.room p.owner
    let _ ← c.get p.participant
    if (c.db.participantIn? p.room p.participant).isSome then
      .error (.alreadyParticipant p.room p.participant)
    let max := c.config.maxParticipants.toNat
    if max ≤ (c.db.participantsOf p.room).length then .error (.roomFull p.room max)
    match p.epochKeys.keys.find? fun epoch => decide (room.epoch ≤ epoch) with
    | some epoch => .error (.epochNotPast epoch room.epoch)
    | none => return room.epoch
  carryOut time epoch p := do
    let name := OperationKind.addParticipant.name
    let participant ← Write.create name .participant fun m =>
      { m with room := p.room, account := p.participant, contentKey := p.contentKey, joined := time }
    let _ ← Write.epochKey name p.room epoch p.participant p.contentKey
    p.epochKeys.entries.forM fun past => do
      let _ ← Write.epochKey name p.room past.1 p.participant past.2
    return .object participant.id

-- Key records stay: the account has seen those keys.
def removeParticipant : Rule RemoveParticipant where
  Plan := Unit
  noPlan := ()
  examine c p := do
    let participant ← c.get p.membership
    let room ← c.ownedRoom participant.room p.owner
    if participant.account = room.owner then .error (.cannotRemoveOwner room.id)
  carryOut _ _ p := do
    Write.remove OperationKind.removeParticipant.name p.membership
    return .object p.membership

-- The epoch to begin, and the participants in the order of their numbers.
structure Rotation where
  epoch : UInt32
  members : List (ParticipantId × AccountId)

-- The room goes on to its next epoch. There must be a key for every participant and for nobody
-- else, and the owner's must be the new room key.
def rotateKey : Rule RotateKey where
  Plan := Rotation
  noPlan := ⟨0, []⟩
  examine c p := do
    let room ← c.ownedRoom p.room p.owner
    let members := (c.db.participantsOf p.room).map fun m => (m.id, m.account)
    let present : SortedSet AccountId := .ofList (members.map (·.2))
    let missing := present.toList.filter fun account => !p.participantKeys.contains account
    let unexpected := p.participantKeys.keys.filter fun account => !present.contains account
    if !missing.isEmpty || !unexpected.isEmpty then .error (.keysMismatch missing unexpected)
    if p.participantKeys.get? p.owner ≠ some p.newRoomKey then .error .ownerKeyMismatch
    if room.epoch = 0xffffffff then .error (.epochsExhausted room.id)
    return ⟨room.epoch + 1, members⟩
  carryOut _ plan p := do
    let name := OperationKind.rotateKey.name
    Write.modify name p.room fun r => { r with roomKey := p.newRoomKey, epoch := plan.epoch }
    let records ← plan.members.mapM fun (participant, account) => do
      match p.participantKeys.get? account with
      | none => throw (.invariant name ("no key for participant " ++ account.text))
      | some key =>
        Write.modify name participant fun m => { m with contentKey := key }
        Write.epochKey name p.room plan.epoch account key
    return .touched ⟨.ofList (records.map RecordId.id),
      .ofList (p.room.id :: plan.members.map fun m => m.1.id), .empty⟩

structure Belongings where
  participants : List ParticipantId
  epochKeys : List EpochKeyId

def deleteRoom : Rule DeleteRoom where
  Plan := Belongings
  noPlan := ⟨[], []⟩
  examine c p := do
    let _ ← c.ownedRoom p.room p.owner
    return ⟨(c.db.participantsOf p.room).map Participant.id, (c.db.keysOf p.room).map EpochKey.id⟩
  carryOut _ plan p := do
    let name := OperationKind.deleteRoom.name
    plan.epochKeys.forM (Write.remove name)
    plan.participants.forM (Write.remove name)
    Write.remove name p.room
    return .touched ⟨.empty, .empty, .ofList
      (p.room.id :: plan.participants.map RecordId.id ++ plan.epochKeys.map RecordId.id)⟩

end Rule

end RoomLedger
