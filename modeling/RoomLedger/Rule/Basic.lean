import RoomLedger.Chain.Config
import RoomLedger.Store.Lookup
import RoomLedger.Operation.Outcome

namespace RoomLedger

structure Context where
  db : Database
  config : Config
  time : Timestamp
  fee : Shares
  results : List Outcome

namespace Context

def get (c : Context) {k : Kind} (id : RecordId k) : Except Refusal k.Row :=
  (c.db.get k id.id).mapError .ofDatabase

-- The id that is meant: by a relative one, the object of an earlier operation.
def resolve (c : Context) (id : ObjectId) : Except Refusal ObjectId :=
  if id.isRelative then
    match c.results[id.number]? with
    | none => .error (.unresolved id "no such earlier operation")
    | some outcome =>
      match outcome.primary? with
      | none => .error (.unresolved id "operation returned no object")
      | some object => .ok object
  else .ok id

def resolveRecord (c : Context) (k : Kind) (id : ObjectId) : Except Refusal k.Row := do
  let id ← c.resolve id
  if k.owns id then (c.db.get k id).mapError .ofDatabase else .error (.wrongObjectType id k)

def requireHolding (c : Context) (owner : AccountId) (asset : AssetId) (required : Shares) :
    Except Refusal Unit :=
  let available := c.db.holding owner asset
  if available < required then .error (.insufficientBalance owner asset required available)
  else .ok ()

end Context

-- The examination reads and answers a refusal or a plan; carrying out writes what was asked and
-- planned.
structure Rule (π : Type) where
  Plan : Type
  -- Stands for a plan where nothing was examined.
  noPlan : Plan
  examine : Context → π → Except Refusal Plan
  carryOut : Timestamp → Plan → π → Change Breach Outcome

namespace Write

variable {α : Type}

def attempt (operation : String) (change : Change DbError α) : Change Breach α :=
  change.adapt (.database operation)

def create (operation : String) (k : Kind) (fill : k.Row → k.Row) : Change Breach k.Row :=
  attempt operation (Database.create k fill)

def modify (operation : String) {k : Kind} (id : RecordId k) (change : k.Row → k.Row) :
    Change Breach Unit :=
  attempt operation (Database.modify k id.id change)

def remove (operation : String) {k : Kind} (id : RecordId k) : Change Breach Unit := do
  let _ ← attempt operation (Database.remove k id.id)

def current : Change Breach Database := get

-- Adds to what an account holds of an asset, which never falls below zero. The first time makes a
-- record of it.
def adjust (operation : String) (owner : AccountId) (asset : AssetId) (delta : Shares) :
    Change Breach Unit := do
  let existing := (← current).balance? owner asset
  let before := (existing.map Balance.amount).getD 0
  match (before.addExact? delta).filter fun amount => decide (0 ≤ amount) with
  | none =>
    throw (.invariant operation ("balance of " ++ owner.text ++ " in " ++ asset.text ++ " would be "
      ++ Decimal.signedText before.toInt ++ " + " ++ Decimal.signedText delta.toInt))
  | some amount =>
    match existing with
    | some balance => modify operation balance.id fun b => { b with amount := amount }
    | none =>
      let _ ← create operation .balance fun b =>
        { b with owner := owner, asset := asset, amount := amount }

end Write

end RoomLedger
