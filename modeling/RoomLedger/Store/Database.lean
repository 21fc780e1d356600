import RoomLedger.Store.Delta
import RoomLedger.Store.PerKind
import RoomLedger.Record.Row
import RoomLedger.Digest.Digest

namespace RoomLedger

inductive DbError where
  | notFound (id : ObjectId)
  | uniqueViolation (k : Kind) (index : String) (holder : ObjectId)
  | unknownType (k : Kind)
  | unknownIndex (k : Kind) (index : String)
  | wrongType (id : ObjectId) (k : Kind)
  | noActiveSession
  | undoFailed (reason : String)
  deriving DecidableEq, Repr

namespace DbError

def message : DbError → String
  | notFound id => "object not found: " ++ id.text
  | uniqueViolation k index holder =>
    "unique index " ++ index ++ " on " ++ k.name ++ " violated: key already held by " ++ holder.text
  | unknownType k =>
    "no index registered for type " ++ Decimal.text k.space.toNat ++ "." ++ Decimal.text k.type.toNat
  | unknownIndex k index => "type " ++ k.name ++ " has no index named " ++ index
  | wrongType id k => "object id " ++ id.text ++ " does not address a " ++ k.name
  | noActiveSession => "no undo session is active"
  | undoFailed reason => "undo failed: " ++ reason

-- Whether the database is as it was before the refused change.
def isRecoverable : DbError → Bool
  | undoFailed _ => false
  | _ => true

def ofTable (k : Kind) : TableFault → DbError
  | .missing number => notFound (k.id number)
  | .taken index holder => uniqueViolation k index (k.id holder)
  | .noIndex name => unknownIndex k name

end DbError

-- Sessions nest. Closing one keeps its changes, as changes of the session around it, or takes them
-- back. Outside of sessions changes are final.
structure Database where
  tables : PerKind fun k => Option (Tracked k.Row)
  depth : Nat

-- What a change did before it failed stays done.
abbrev Change (ε α : Type) := ExceptT ε (StateM Database) α

theorem Change.bind_apply {ε α β : Type} (first : Change ε α) (next : α → Change ε β) (db : Database) :
    (first >>= next) db = match first db with
      | (.ok a, db) => next a db
      | (.error e, db) => (.error e, db) := by
  change (match first db with | (result, db) => ExceptT.bindCont next result db) = _
  obtain ⟨result, after⟩ := first db
  cases result <;> rfl

namespace Database

def empty : Database := ⟨.ofFn fun _ => none, 0⟩

instance : Inhabited Database := ⟨empty⟩

def register (db : Database) (k : Kind) : Database :=
  match db.tables.get k with
  | some _ => db
  | none => { db with tables := db.tables.set k (some (.empty db.depth)) }

def registerAll (db : Database) : Database := Kind.all.foldl register db

def registered (db : Database) : List Kind := Kind.all.filter fun k => (db.tables.get k).isSome

def tracked (db : Database) (k : Kind) : Except DbError (Tracked k.Row) :=
  match db.tables.get k with
  | some t => .ok t
  | none => .error (.unknownType k)

def table (db : Database) (k : Kind) : Except DbError (Table k.Row) := (·.table) <$> db.tracked k

-- The class of an id is looked at before the table is.
def numberOf (k : Kind) (id : ObjectId) : Except DbError Nat :=
  if k.owns id then .ok id.number else .error (.wrongType id k)

def find (db : Database) (k : Kind) (id : ObjectId) : Except DbError (Option k.Row) := do
  let number ← numberOf k id
  return (← db.table k).get? number

def get (db : Database) (k : Kind) (id : ObjectId) : Except DbError k.Row := do
  match ← db.find k id with
  | some row => return row
  | none => .error (.notFound id)

def contains (db : Database) (k : Kind) (id : ObjectId) : Bool :=
  match db.find k id with
  | .ok (some _) => true
  | _ => false

def lookUp {α : Type} (db : Database) (k : Kind) (look : Table k.Row → Except TableFault α) :
    Except DbError α := do
  (look (← db.table k)).mapError (.ofTable k)

def findBy (db : Database) (k : Kind) (index : String) (key : Key) : Except DbError (Option k.Row) :=
  db.lookUp k (·.find index key)

def withKey (db : Database) (k : Kind) (index : String) (key : Key) : Except DbError (List k.Row) :=
  db.lookUp k (·.withKey index key)

def startingWith (db : Database) (k : Kind) (index : String) (start : Key) : Except DbError (List k.Row) :=
  db.lookUp k (·.startingWith index start)

def rows (db : Database) (k : Kind) : List k.Row :=
  match db.tables.get k with
  | some t => t.table.rows.values
  | none => []

def count (db : Database) (k : Kind) : Nat := (db.rows k).length

def all (db : Database) : List AnyRow := Kind.all.flatMap fun k => (db.rows k).map fun row => ⟨k, row⟩

def size (db : Database) : Nat := (Kind.all.map db.count).foldr (· + ·) 0

def findAny (db : Database) (id : ObjectId) : Option AnyRow := do
  let k ← Kind.ofId? id
  let row ← (← db.tables.get k).table.get? id.number
  return ⟨k, row⟩

def create (k : Kind) (fill : k.Row → k.Row) : Change DbError k.Row := fun db =>
  match db.tracked k with
  | .error e => (.error e, db)
  | .ok t =>
    match t.create fill with
    | .error fault => (.error (.ofTable k fault), db)
    | .ok (row, t) => (.ok row, { db with tables := db.tables.set k (some t) })

def modify (k : Kind) (id : ObjectId) (change : k.Row → k.Row) : Change DbError Unit := fun db =>
  match (do return (← numberOf k id, ← db.tracked k)) with
  | .error e => (.error e, db)
  | .ok (number, t) =>
    match t.modify number change with
    | .error fault => (.error (.ofTable k fault), db)
    | .ok t => (.ok (), { db with tables := db.tables.set k (some t) })

def remove (k : Kind) (id : ObjectId) : Change DbError k.Row := fun db =>
  match (do return (← numberOf k id, ← db.tracked k)) with
  | .error e => (.error e, db)
  | .ok (number, t) =>
    match t.remove number with
    | .error fault => (.error (.ofTable k fault), db)
    | .ok (row, t) => (.ok row, { db with tables := db.tables.set k (some t) })

def push (db : Database) : Database :=
  ⟨.ofFn fun k => (db.tables.get k).map Tracked.push, db.depth + 1⟩

def commit : Change DbError Unit := fun db =>
  if db.depth = 0 then (.error .noActiveSession, db)
  else (.ok (), ⟨.ofFn fun k => (db.tables.get k).map Tracked.commit, db.depth - 1⟩)

def undoFault (k : Kind) : TableFault → DbError
  | .missing number =>
    let id := k.id number
    .undoFailed ("erase " ++ id.text ++ ": " ++ (DbError.notFound id).message)
  | fault => .undoFailed (DbError.ofTable k fault).message

def reverted (db : Database) : Except DbError (PerKind fun k => Option (Tracked k.Row)) :=
  Kind.all.foldlM (fun tables k =>
    match db.tables.get k with
    | none => .ok tables
    | some t =>
      match t.undo with
      | .ok t => .ok (tables.set k (some t))
      | .error fault => .error (undoFault k fault)) db.tables

def undo : Change DbError Unit := fun db =>
  if db.depth = 0 then (.error .noActiveSession, db)
  else match db.reverted with
    | .ok tables => (.ok (), ⟨tables, db.depth - 1⟩)
    | .error e => (.error e, { db with depth := db.depth - 1 })

def pending (db : Database) (k : Kind) : Delta k.Row :=
  match db.tables.get k with
  | some t => t.deltas.headD .empty
  | none => .empty

-- The bytes of a table: its counter, the number of its records, and each of them after its length.
def tableBytes {k : Kind} (t : Table k.Row) : List UInt8 :=
  Wire.writeCount t.next ++ Wire.writeCount t.size ++ t.rows.values.flatMap fun row =>
    let bytes := Wire.write row
    Wire.writeCount bytes.length ++ bytes

def serialize (db : Database) : List UInt8 :=
  Kind.all.flatMap fun k =>
    match db.tables.get k with
    | some t => k.space :: k.type :: tableBytes t.table
    | none => []

-- The digest of the serialized state, marked as one.
def digest (db : Database) : Digest := .ofInput (Wire.utf8 "acta-state-v1:" ++ db.serialize)

def snapshot (db : Database) : Json :=
  .ofMembers (Kind.all.flatMap fun k =>
    match db.tables.get k with
    | some t => t.table.rows.entries.filterMap fun e =>
        if e.1 < t.table.next then some ((k.id e.1).text, Form.write e.2) else none
    | none => [])

def debugText (db : Database) : String :=
  "ObjectDatabase \x7b types: [" ++ ", ".intercalate (db.registered.map fun k => Quoted.text k.name)
    ++ "], object_count: " ++ Decimal.text db.size ++ ", undo_depth: " ++ Decimal.text db.depth ++ " \x7d"

end Database

end RoomLedger
