import RoomLedger.Block.Receipt
import RoomLedger.Json.Printer
import RoomLedger.Store.Database

namespace RoomLedger

structure Changed where
  ids : List ObjectId
  concerned : SortedSet AccountId

structure NetChanges where
  created : Changed
  modified : Changed
  removed : Changed
  -- The removed records as they were when the session began.
  snapshots : List AnyRow

namespace NetChanges

def empty : NetChanges := ⟨⟨[], .empty⟩, ⟨[], .empty⟩, ⟨[], .empty⟩, []⟩

def isEmpty (c : NetChanges) : Bool :=
  c.created.ids.isEmpty && c.modified.ids.isEmpty && c.removed.ids.isEmpty

end NetChanges

namespace Database

def createdIds (db : Database) : List ObjectId :=
  Kind.all.flatMap fun k => (db.pending k).created.toList.map k.id

def modifiedIds (db : Database) : List ObjectId :=
  Kind.all.flatMap fun k => (db.pending k).modified.keys.map k.id

def removedRows (db : Database) : List AnyRow :=
  Kind.all.flatMap fun k => (db.pending k).removed.values.map fun row => ⟨k, row⟩

-- The records as they are now decide whom they concern.
def concernedBy (db : Database) (ids : List ObjectId) : SortedSet AccountId :=
  .ofList ((ids.filterMap db.findAny).flatMap AnyRow.concerned)

def netChanges (db : Database) : NetChanges :=
  let created := db.createdIds
  let modified := db.modifiedIds
  let removed := db.removedRows
  ⟨⟨created, db.concernedBy created⟩, ⟨modified, db.concernedBy modified⟩,
    ⟨removed.map AnyRow.id, .ofList (removed.flatMap AnyRow.concerned)⟩, removed⟩

end Database

inductive Notice where
  | created (records : Changed)
  | changed (records : Changed)
  | removed (records : Changed) (snapshots : List AnyRow)
  | applied (receipt : BlockReceipt)

namespace Notice

def name : Notice → String
  | created _ => "objects_created"
  | changed _ => "objects_changed"
  | removed _ _ => "objects_removed"
  | applied _ => "block_applied"

def text (n : Notice) : String :=
  let about := match n with
    | created records | changed records | removed records _ => Decimal.text records.ids.length
    | applied receipt => "#" ++ Decimal.text receipt.number.toNat
  n.name ++ "(" ++ about ++ ")"

-- A snapshot is free of the order of its fields.
def members : Notice → List (String × Json)
  | created records | changed records =>
    [("ids", Form.write records.ids), ("impacted", Form.write records.concerned)]
  | removed records snapshots =>
    [("ids", Form.write records.ids), ("snapshots", .list (snapshots.map fun r => r.toJson.ordered)),
      ("impacted", Form.write records.concerned)]
  | applied receipt =>
    [("block_num", Form.write receipt.number), ("timestamp", Form.write receipt.time),
      ("operations", .list (receipt.operations.map fun (op, outcome) =>
        .ofMembers [("operation", Form.write op), ("result", Form.write outcome)])),
      ("rejected", .ofNat receipt.rejected.length)]

def toJson (n : Notice) : Json := .ofMembers (("event", .ofText n.name) :: n.members)

end Notice

def NetChanges.notices (changes : NetChanges) (receipt : BlockReceipt) : List Notice :=
  let about (records : Changed) (notice : Notice) := if records.ids.isEmpty then [] else [notice]
  about changes.created (.created changes.created)
    ++ about changes.modified (.changed changes.modified)
    ++ about changes.removed (.removed changes.removed changes.snapshots)
    ++ [.applied receipt]

end RoomLedger
