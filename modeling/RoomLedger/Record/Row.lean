import RoomLedger.Operation.Fee
import RoomLedger.Store.Table

namespace RoomLedger

structure Account where
  id : AccountId
  name : String
  registrar : AccountId
  deriving DecidableEq, Inhabited

structure AssetInfo where
  id : AssetId
  symbol : String
  precision : UInt8
  issuer : AccountId
  supply : SupplyId
  deriving DecidableEq, Inhabited

structure Sport where
  id : SportId
  name : LocalizedName
  deriving DecidableEq, Inhabited

structure EventGroup where
  id : EventGroupId
  name : LocalizedName
  sport : SportId
  deriving DecidableEq, Inhabited

structure Room where
  id : RoomId
  owner : AccountId
  name : String
  -- The key of the current epoch, encrypted for the owner.
  roomKey : String
  created : Timestamp
  epoch : UInt32
  deriving DecidableEq, Inhabited

structure Participant where
  id : ParticipantId
  room : RoomId
  account : AccountId
  contentKey : String
  joined : Timestamp
  deriving DecidableEq, Inhabited

structure EpochKey where
  id : EpochKeyId
  room : RoomId
  epoch : UInt32
  account : AccountId
  contentKey : String
  deriving DecidableEq, Inhabited

structure Parameters where
  fees : FeeSchedule
  deriving DecidableEq, Inhabited

structure Globals where
  id : GlobalsId
  parameters : Parameters
  deriving DecidableEq, Inhabited

structure Head where
  id : HeadId
  number : UInt32
  time : Timestamp
  deriving DecidableEq, Inhabited

structure Supply where
  id : SupplyId
  current : Shares
  fees : Shares
  deriving DecidableEq, Inhabited

structure Balance where
  id : BalanceId
  owner : AccountId
  asset : AssetId
  amount : Shares
  deriving DecidableEq, Inhabited

instance : Laid Account where
  Tuple := AccountId × String × AccountId × Unit
  layout := .field "id" none <| .field "name" none <| .field "registrar" none .done
  toTuple r := (r.id, r.name, r.registrar, ())
  ofTuple := fun (id, name, registrar, _) => ⟨id, name, registrar⟩

instance : Laid AssetInfo where
  Tuple := AssetId × String × UInt8 × AccountId × SupplyId × Unit
  layout := .field "id" none <| .field "symbol" none <| .field "precision" none <|
    .field "issuer" none <| .field "dynamic_data" none .done
  toTuple r := (r.id, r.symbol, r.precision, r.issuer, r.supply, ())
  ofTuple := fun (id, symbol, precision, issuer, supply, _) => ⟨id, symbol, precision, issuer, supply⟩

instance : Laid Sport where
  Tuple := SportId × LocalizedName × Unit
  layout := .field "id" none <| .field "name" none .done
  toTuple r := (r.id, r.name, ())
  ofTuple := fun (id, name, _) => ⟨id, name⟩

instance : Laid EventGroup where
  Tuple := EventGroupId × LocalizedName × SportId × Unit
  layout := .field "id" none <| .field "name" none <| .field "sport_id" none .done
  toTuple r := (r.id, r.name, r.sport, ())
  ofTuple := fun (id, name, sport, _) => ⟨id, name, sport⟩

instance : Laid Room where
  Tuple := RoomId × AccountId × String × String × Timestamp × UInt32 × Unit
  layout := .field "id" none <| .field "owner" none <| .field "name" none <|
    .field "room_key" none <| .field "timestamp" none <| .field "current_epoch" none .done
  toTuple r := (r.id, r.owner, r.name, r.roomKey, r.created, r.epoch, ())
  ofTuple := fun (id, owner, name, roomKey, created, epoch, _) =>
    ⟨id, owner, name, roomKey, created, epoch⟩

instance : Laid Participant where
  Tuple := ParticipantId × RoomId × AccountId × String × Timestamp × Unit
  layout := .field "id" none <| .field "room" none <| .field "participant" none <|
    .field "content_key" none <| .field "timestamp" none .done
  toTuple r := (r.id, r.room, r.account, r.contentKey, r.joined, ())
  ofTuple := fun (id, room, account, contentKey, joined, _) => ⟨id, room, account, contentKey, joined⟩

instance : Laid EpochKey where
  Tuple := EpochKeyId × RoomId × UInt32 × AccountId × String × Unit
  layout := .field "id" none <| .field "room" none <| .field "epoch" none <|
    .field "participant" none <| .field "content_key" none .done
  toTuple r := (r.id, r.room, r.epoch, r.account, r.contentKey, ())
  ofTuple := fun (id, room, epoch, account, contentKey, _) => ⟨id, room, epoch, account, contentKey⟩

instance : Laid Parameters where
  Tuple := FeeSchedule × Unit
  layout := .field "current_fees" none .done
  toTuple r := (r.fees, ())
  ofTuple := fun (fees, _) => ⟨fees⟩

instance : Laid Globals where
  Tuple := GlobalsId × Parameters × Unit
  layout := .field "id" none <| .field "parameters" none .done
  toTuple r := (r.id, r.parameters, ())
  ofTuple := fun (id, parameters, _) => ⟨id, parameters⟩

instance : Laid Head where
  Tuple := HeadId × UInt32 × Timestamp × Unit
  layout := .field "id" none <| .field "head_block_number" none <| .field "time" none .done
  toTuple r := (r.id, r.number, r.time, ())
  ofTuple := fun (id, number, time, _) => ⟨id, number, time⟩

instance : Laid Supply where
  Tuple := SupplyId × Shares × Shares × Unit
  layout := .field "id" none <| .field "current_supply" none <| .field "accumulated_fees" none .done
  toTuple r := (r.id, r.current, r.fees, ())
  ofTuple := fun (id, current, fees, _) => ⟨id, current, fees⟩

instance : Laid Balance where
  Tuple := BalanceId × AccountId × AssetId × Shares × Unit
  layout := .field "id" none <| .field "owner" none <| .field "asset_type" none <|
    .field "balance" none .done
  toTuple r := (r.id, r.owner, r.asset, r.amount, ())
  ofTuple := fun (id, owner, asset, amount, _) => ⟨id, owner, asset, amount⟩

-- An id stands in keys with its class; numbers of different kinds never meet.
def RecordId.part {k : Kind} (r : RecordId k) : KeyPart := .id r.id

def epochPart (epoch : UInt32) : KeyPart := .number epoch.toNat

instance : Stored Account where
  blank := default
  number r := r.id.number
  withNumber r n := { r with id := ⟨n⟩ }
  indices := [⟨"by_name", true, fun r => [.text r.name]⟩]

instance : Stored AssetInfo where
  blank := default
  number r := r.id.number
  withNumber r n := { r with id := ⟨n⟩ }
  indices := [⟨"by_symbol", true, fun r => [.text r.symbol]⟩]

instance : Stored Sport where
  blank := default
  number r := r.id.number
  withNumber r n := { r with id := ⟨n⟩ }
  indices := []

instance : Stored EventGroup where
  blank := default
  number r := r.id.number
  withNumber r n := { r with id := ⟨n⟩ }
  indices := [⟨"by_sport", true, fun r => [r.sport.part, r.id.part]⟩]

instance : Stored Room where
  blank := default
  number r := r.id.number
  withNumber r n := { r with id := ⟨n⟩ }
  indices := [
    ⟨"by_owner", false, fun r => [r.owner.part]⟩,
    ⟨"by_name", true, fun r => [r.owner.part, .text r.name]⟩]

instance : Stored Participant where
  blank := default
  number r := r.id.number
  withNumber r n := { r with id := ⟨n⟩ }
  indices := [
    ⟨"by_room", false, fun r => [r.room.part]⟩,
    ⟨"by_participant", false, fun r => [r.account.part]⟩,
    ⟨"by_room_and_participant", true, fun r => [r.room.part, r.account.part]⟩]

instance : Stored EpochKey where
  blank := default
  number r := r.id.number
  withNumber r n := { r with id := ⟨n⟩ }
  indices := [
    ⟨"by_room_and_epoch", false, fun r => [r.room.part, epochPart r.epoch]⟩,
    ⟨"by_room_epoch_participant", true, fun r => [r.room.part, epochPart r.epoch, r.account.part]⟩,
    ⟨"by_room_and_participant", false, fun r => [r.room.part, r.account.part, epochPart r.epoch]⟩]

instance : Stored Globals where
  blank := default
  number r := r.id.number
  withNumber r n := { r with id := ⟨n⟩ }
  indices := []

instance : Stored Head where
  blank := default
  number r := r.id.number
  withNumber r n := { r with id := ⟨n⟩ }
  indices := []

instance : Stored Supply where
  blank := default
  number r := r.id.number
  withNumber r n := { r with id := ⟨n⟩ }
  indices := []

instance : Stored Balance where
  blank := default
  number r := r.id.number
  withNumber r n := { r with id := ⟨n⟩ }
  indices := [⟨"by_account_asset", true, fun r => [r.owner.part, r.asset.part]⟩]

namespace Kind

abbrev Row : Kind → Type
  | account => Account
  | asset => AssetInfo
  | sport => Sport
  | eventGroup => EventGroup
  | room => Room
  | participant => Participant
  | epochKey => EpochKey
  | globals => Globals
  | head => Head
  | supply => Supply
  | balance => Balance

instance (k : Kind) : Stored k.Row :=
  match k with
  | account => inferInstanceAs (Stored Account)
  | asset => inferInstanceAs (Stored AssetInfo)
  | sport => inferInstanceAs (Stored Sport)
  | eventGroup => inferInstanceAs (Stored EventGroup)
  | room => inferInstanceAs (Stored Room)
  | participant => inferInstanceAs (Stored Participant)
  | epochKey => inferInstanceAs (Stored EpochKey)
  | globals => inferInstanceAs (Stored Globals)
  | head => inferInstanceAs (Stored Head)
  | supply => inferInstanceAs (Stored Supply)
  | balance => inferInstanceAs (Stored Balance)

instance (k : Kind) : Laid k.Row :=
  match k with
  | account => inferInstanceAs (Laid Account)
  | asset => inferInstanceAs (Laid AssetInfo)
  | sport => inferInstanceAs (Laid Sport)
  | eventGroup => inferInstanceAs (Laid EventGroup)
  | room => inferInstanceAs (Laid Room)
  | participant => inferInstanceAs (Laid Participant)
  | epochKey => inferInstanceAs (Laid EpochKey)
  | globals => inferInstanceAs (Laid Globals)
  | head => inferInstanceAs (Laid Head)
  | supply => inferInstanceAs (Laid Supply)
  | balance => inferInstanceAs (Laid Balance)

def idOf {k : Kind} (row : k.Row) : ObjectId := k.id (Stored.number row)

def concerned : (k : Kind) → k.Row → List AccountId
  | account, r => [r.id, r.registrar]
  | asset, r => [r.issuer]
  | room, r => [r.owner]
  | participant, r => [r.account]
  | epochKey, r => [r.account]
  | balance, r => [r.owner]
  | _, _ => []

end Kind

structure AnyRow where
  kind : Kind
  row : kind.Row

namespace AnyRow

def id (r : AnyRow) : ObjectId := Kind.idOf r.row
def concerned (r : AnyRow) : List AccountId := r.kind.concerned r.row
def toJson (r : AnyRow) : Json := Form.write r.row
def bytes (r : AnyRow) : List UInt8 := Wire.write r.row

end AnyRow

end RoomLedger
