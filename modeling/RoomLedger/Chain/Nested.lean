import RoomLedger.Rule.Execution
import RoomLedger.Block.Transaction

namespace RoomLedger

-- Makes a change in a session of its own, which is kept if the change succeeds and taken back if
-- it fails.
def nested {α : Type} (change : Change ChainError α) : Change ChainError α := fun db =>
  match change db.push with
  | (.ok a, db) =>
    match Database.commit db with
    | (.ok (), db) => (.ok a, db)
    | (.error e, db) => (.error (.database e), db)
  | (.error cause, db) =>
    match Database.undo db with
    | (.ok (), db) => (.error cause, db)
    | (.error e, db) => (.error (.rollback e), db)

namespace Transaction

def performNext (config : Config) (time : Timestamp) (results : List Outcome) (op : Operation) :
    Change ChainError (List Outcome) := do
  return results ++ [← nested (op.perform config time results)]

def perform (t : Transaction) (config : Config) (time : Timestamp) : Change ChainError (List Outcome) :=
  nested (t.operations.foldlM (performNext config time) [])

def approve (t : Transaction) (config : Config) : Except Refusal Unit := do
  t.validate.mapError .malformed
  if config.enforceAuthorities then
    match t.missing with
    | [] => .ok ()
    | account :: _ => .error (.missingAuthority account)

end Transaction

end RoomLedger
