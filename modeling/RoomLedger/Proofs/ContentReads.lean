import RoomLedger.Store.Lookup
import RoomLedger.Proofs.StoredRecords

namespace RoomLedger.Database

variable {α : Type} {db other : Database} {k : Kind}

theorem contents_congr (same : other.tables.get k = db.tables.get k) :
    other.contents.get k = db.contents.get k := by
  rw [get_contents, get_contents, same]

-- What follows is read from the contents alone: two databases that hold the same answer the same,
-- however many sessions are open and whatever these have changed.
theorem table_eq (db : Database) (k : Kind) :
    db.table k = (db.contents.get k).elim (.error (.unknownType k)) .ok := by
  rw [get_contents]
  unfold table tracked
  cases db.tables.get k <;> rfl

theorem row?_eq_contents (db : Database) (k : Kind) (n : Nat) :
    db.row? k n = (db.contents.get k).bind (·.get? n) := by
  rw [row?, get_contents, Option.bind_map]
  rfl

theorem next_eq_contents (db : Database) (k : Kind) : db.next k = (db.contents.get k).elim 0 (·.next) := by
  rw [next, get_contents]
  cases db.tables.get k <;> rfl

theorem rows_eq_contents (db : Database) (k : Kind) :
    db.rows k = (db.contents.get k).elim [] fun t => t.rows.values := by
  rw [get_contents]
  unfold rows
  cases db.tables.get k <;> rfl

theorem serialize_eq_contents (db : Database) : db.serialize = Kind.all.flatMap fun k =>
    (db.contents.get k).elim [] fun t => k.space :: k.type :: tableBytes t := by
  unfold serialize
  refine congrArg (List.flatMap · Kind.all) (funext fun k => ?_)
  rw [get_contents]
  cases db.tables.get k <;> rfl

theorem rows_congr (same : other.contents.get k = db.contents.get k) : other.rows k = db.rows k := by
  rw [rows_eq_contents, rows_eq_contents, same]

theorem get_congr (same : other.contents.get k = db.contents.get k) (id : ObjectId) :
    other.get k id = db.get k id := by
  rw [get, get, find, find, table_eq, table_eq, same]

theorem lookUp_congr (same : other.contents.get k = db.contents.get k)
    (look : Table k.Row → Except TableFault α) : other.lookUp k look = db.lookUp k look := by
  rw [lookUp, lookUp, table_eq, table_eq, same]

theorem findBy_congr (same : other.contents.get k = db.contents.get k) (index : String) (key : Key) :
    other.findBy k index key = db.findBy k index key := lookUp_congr same _

theorem withKey_congr (same : other.contents.get k = db.contents.get k) (index : String) (key : Key) :
    other.withKey k index key = db.withKey k index key := lookUp_congr same _

theorem startingWith_congr (same : other.contents.get k = db.contents.get k) (index : String) (start : Key) :
    other.startingWith k index start = db.startingWith k index start := lookUp_congr same _

theorem accountNamed?_congr (same : other.contents.get .account = db.contents.get .account) (name : String) :
    other.accountNamed? name = db.accountNamed? name := by
  rw [accountNamed?, accountNamed?, findBy_congr same]

theorem roomNamed?_congr (same : other.contents.get .room = db.contents.get .room) (owner : AccountId)
    (name : String) : other.roomNamed? owner name = db.roomNamed? owner name := by
  rw [roomNamed?, roomNamed?, findBy_congr same]

theorem participantIn?_congr (same : other.contents.get .participant = db.contents.get .participant)
    (room : RoomId) (account : AccountId) : other.participantIn? room account = db.participantIn? room account := by
  rw [participantIn?, participantIn?, findBy_congr same]

theorem participantsOf_congr (same : other.contents.get .participant = db.contents.get .participant)
    (room : RoomId) : other.participantsOf room = db.participantsOf room := by
  rw [participantsOf, participantsOf, withKey_congr same]

theorem epochKey?_congr (same : other.contents.get .epochKey = db.contents.get .epochKey) (room : RoomId)
    (epoch : UInt32) (account : AccountId) :
    other.epochKey? room epoch account = db.epochKey? room epoch account := by
  rw [epochKey?, epochKey?, findBy_congr same]

theorem keysOf_congr (same : other.contents.get .epochKey = db.contents.get .epochKey) (room : RoomId) :
    other.keysOf room = db.keysOf room := by
  rw [keysOf, keysOf, startingWith_congr same]

theorem balance?_congr (same : other.contents.get .balance = db.contents.get .balance) (owner : AccountId)
    (asset : AssetId) : other.balance? owner asset = db.balance? owner asset := by
  rw [balance?, balance?, findBy_congr same]

theorem holding_congr (same : other.contents.get .balance = db.contents.get .balance) (owner : AccountId)
    (asset : AssetId) : other.holding owner asset = db.holding owner asset := by
  rw [holding, holding, balance?_congr same]

end RoomLedger.Database
