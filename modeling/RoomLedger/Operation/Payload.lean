import RoomLedger.Value.Forms

namespace RoomLedger

-- Every payload declares the fee that its submitter offers.
structure Transfer where
  fee : Funds
  sender : AccountId
  receiver : AccountId
  amount : Funds
  memo : Option String
  deriving DecidableEq, Inhabited

structure CreateAccount where
  fee : Funds
  registrar : AccountId
  name : String
  deriving DecidableEq, Inhabited

structure CreateRoom where
  fee : Funds
  owner : AccountId
  name : String
  -- The room key encrypted for the owner.
  roomKey : String
  deriving DecidableEq, Inhabited

structure UpdateRoom where
  fee : Funds
  owner : AccountId
  room : RoomId
  name : String
  deriving DecidableEq, Inhabited

-- Add an account to a room and hand it the current key, and keys of earlier epochs if any.
structure AddParticipant where
  fee : Funds
  owner : AccountId
  room : RoomId
  participant : AccountId
  contentKey : String
  epochKeys : SortedMap UInt32 String
  deriving DecidableEq, Inhabited

structure RemoveParticipant where
  fee : Funds
  owner : AccountId
  membership : ParticipantId
  deriving DecidableEq, Inhabited

-- Replace the room key and begin an epoch, with one key for each participant.
structure RotateKey where
  fee : Funds
  owner : AccountId
  room : RoomId
  newRoomKey : String
  participantKeys : SortedMap AccountId String
  deriving DecidableEq, Inhabited

structure DeleteRoom where
  fee : Funds
  owner : AccountId
  room : RoomId
  deriving DecidableEq, Inhabited

structure CreateSport where
  fee : Funds
  name : LocalizedName
  deriving DecidableEq, Inhabited

structure UpdateSport where
  fee : Funds
  sport : SportId
  newName : Option LocalizedName
  deriving DecidableEq, Inhabited

structure DeleteSport where
  fee : Funds
  sport : SportId
  deriving DecidableEq, Inhabited

-- The sport may be named by a relative id, so that both come about in one transaction.
structure CreateEventGroup where
  fee : Funds
  name : LocalizedName
  sport : ObjectId
  deriving DecidableEq, Inhabited

structure UpdateEventGroup where
  fee : Funds
  group : EventGroupId
  newSport : Option ObjectId
  newName : Option LocalizedName
  deriving DecidableEq, Inhabited

structure DeleteEventGroup where
  fee : Funds
  group : EventGroupId
  deriving DecidableEq, Inhabited

instance : Laid Transfer where
  Tuple := Funds × AccountId × AccountId × Funds × Option String × Unit
  layout := .field "fee" none <| .field "from" none <| .field "to" none <| .field "amount" none <|
    .field "memo" (some none) .done
  toTuple p := (p.fee, p.sender, p.receiver, p.amount, p.memo, ())
  ofTuple := fun (fee, sender, receiver, amount, memo, _) => ⟨fee, sender, receiver, amount, memo⟩

instance : Laid CreateAccount where
  Tuple := Funds × AccountId × String × Unit
  layout := .field "fee" none <| .field "registrar" none <| .field "name" none .done
  toTuple p := (p.fee, p.registrar, p.name, ())
  ofTuple := fun (fee, registrar, name, _) => ⟨fee, registrar, name⟩

instance : Laid CreateRoom where
  Tuple := Funds × AccountId × String × String × Unit
  layout := .field "fee" none <| .field "owner" none <| .field "name" none <|
    .field "room_key" none .done
  toTuple p := (p.fee, p.owner, p.name, p.roomKey, ())
  ofTuple := fun (fee, owner, name, roomKey, _) => ⟨fee, owner, name, roomKey⟩

instance : Laid UpdateRoom where
  Tuple := Funds × AccountId × RoomId × String × Unit
  layout := .field "fee" none <| .field "owner" none <| .field "room" none <|
    .field "name" none .done
  toTuple p := (p.fee, p.owner, p.room, p.name, ())
  ofTuple := fun (fee, owner, room, name, _) => ⟨fee, owner, room, name⟩

instance : Laid AddParticipant where
  Tuple := Funds × AccountId × RoomId × AccountId × String × SortedMap UInt32 String × Unit
  layout := .field "fee" none <| .field "owner" none <| .field "room" none <|
    .field "participant" none <| .field "content_key" none <|
    .field "epoch_keys" (some .empty) .done
  toTuple p := (p.fee, p.owner, p.room, p.participant, p.contentKey, p.epochKeys, ())
  ofTuple := fun (fee, owner, room, participant, contentKey, epochKeys, _) =>
    ⟨fee, owner, room, participant, contentKey, epochKeys⟩

instance : Laid RemoveParticipant where
  Tuple := Funds × AccountId × ParticipantId × Unit
  layout := .field "fee" none <| .field "owner" none <| .field "participant_id" none .done
  toTuple p := (p.fee, p.owner, p.membership, ())
  ofTuple := fun (fee, owner, membership, _) => ⟨fee, owner, membership⟩

instance : Laid RotateKey where
  Tuple := Funds × AccountId × RoomId × String × SortedMap AccountId String × Unit
  layout := .field "fee" none <| .field "owner" none <| .field "room" none <|
    .field "new_room_key" none <| .field "participant_keys" none .done
  toTuple p := (p.fee, p.owner, p.room, p.newRoomKey, p.participantKeys, ())
  ofTuple := fun (fee, owner, room, newRoomKey, participantKeys, _) =>
    ⟨fee, owner, room, newRoomKey, participantKeys⟩

instance : Laid DeleteRoom where
  Tuple := Funds × AccountId × RoomId × Unit
  layout := .field "fee" none <| .field "owner" none <| .field "room" none .done
  toTuple p := (p.fee, p.owner, p.room, ())
  ofTuple := fun (fee, owner, room, _) => ⟨fee, owner, room⟩

instance : Laid CreateSport where
  Tuple := Funds × LocalizedName × Unit
  layout := .field "fee" none <| .field "name" none .done
  toTuple p := (p.fee, p.name, ())
  ofTuple := fun (fee, name, _) => ⟨fee, name⟩

instance : Laid UpdateSport where
  Tuple := Funds × SportId × Option LocalizedName × Unit
  layout := .field "fee" none <| .field "sport_id" none <| .field "new_name" (some none) .done
  toTuple p := (p.fee, p.sport, p.newName, ())
  ofTuple := fun (fee, sport, newName, _) => ⟨fee, sport, newName⟩

instance : Laid DeleteSport where
  Tuple := Funds × SportId × Unit
  layout := .field "fee" none <| .field "sport_id" none .done
  toTuple p := (p.fee, p.sport, ())
  ofTuple := fun (fee, sport, _) => ⟨fee, sport⟩

instance : Laid CreateEventGroup where
  Tuple := Funds × LocalizedName × ObjectId × Unit
  layout := .field "fee" none <| .field "name" none <| .field "sport_id" none .done
  toTuple p := (p.fee, p.name, p.sport, ())
  ofTuple := fun (fee, name, sport, _) => ⟨fee, name, sport⟩

instance : Laid UpdateEventGroup where
  Tuple := Funds × EventGroupId × Option ObjectId × Option LocalizedName × Unit
  layout := .field "fee" none <| .field "event_group_id" none <|
    .field "new_sport_id" (some none) <| .field "new_name" (some none) .done
  toTuple p := (p.fee, p.group, p.newSport, p.newName, ())
  ofTuple := fun (fee, group, newSport, newName, _) => ⟨fee, group, newSport, newName⟩

instance : Laid DeleteEventGroup where
  Tuple := Funds × EventGroupId × Unit
  layout := .field "fee" none <| .field "event_group_id" none .done
  toTuple p := (p.fee, p.group, ())
  ofTuple := fun (fee, group, _) => ⟨fee, group⟩

end RoomLedger
