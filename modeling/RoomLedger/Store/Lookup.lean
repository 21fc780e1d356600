import RoomLedger.Store.Database

namespace RoomLedger.Database

-- A database without the table that is asked has no such record.
def found {α : Type} (result : Except DbError (Option α)) : Option α := result.toOption.join

def listed {α : Type} (result : Except DbError (List α)) : List α := result.toOption.getD []

def accountNamed? (db : Database) (name : String) : Option Account :=
  found (db.findBy .account "by_name" [.text name])

def assetWithSymbol? (db : Database) (symbol : String) : Option AssetInfo :=
  found (db.findBy .asset "by_symbol" [.text symbol])

def roomNamed? (db : Database) (owner : AccountId) (name : String) : Option Room :=
  found (db.findBy .room "by_name" [owner.part, .text name])

def participantIn? (db : Database) (room : RoomId) (account : AccountId) : Option Participant :=
  found (db.findBy .participant "by_room_and_participant" [room.part, account.part])

def participantsOf (db : Database) (room : RoomId) : List Participant :=
  listed (db.withKey .participant "by_room" [room.part])

def epochKey? (db : Database) (room : RoomId) (epoch : UInt32) (account : AccountId) :
    Option EpochKey :=
  found (db.findBy .epochKey "by_room_epoch_participant" [room.part, epochPart epoch, account.part])

def keysAt (db : Database) (room : RoomId) (epoch : UInt32) : List EpochKey :=
  listed (db.withKey .epochKey "by_room_and_epoch" [room.part, epochPart epoch])

def keysOf (db : Database) (room : RoomId) : List EpochKey :=
  listed (db.startingWith .epochKey "by_room_and_epoch" [room.part])

def balance? (db : Database) (owner : AccountId) (asset : AssetId) : Option Balance :=
  found (db.findBy .balance "by_account_asset" [owner.part, asset.part])

def holding (db : Database) (owner : AccountId) (asset : AssetId) : Shares :=
  ((db.balance? owner asset).map Balance.amount).getD 0

end RoomLedger.Database
