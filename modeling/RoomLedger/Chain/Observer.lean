import RoomLedger.Chain.Error
import RoomLedger.Chain.Notice

namespace RoomLedger

class Observer (ω : Type) where
  name : ω → String
  tell : Database → Notice → ω → Except String Unit × ω

namespace Observer

variable {ω : Type} [Observer ω]

def tellEach (db : Database) (notice : Notice) : List ω → Except ChainError Unit × List ω
  | [] => (.ok (), [])
  | observer :: rest =>
    match tell db notice observer with
    | (.error reason, observer) =>
      (.error (.notification (name observer) notice.name reason), observer :: rest)
    | (.ok (), observer) =>
      let (result, rest) := tellEach db notice rest
      (result, observer :: rest)

-- A notice goes to all observers before the next one does; the first that fails ends it.
def publish (db : Database) : List Notice → List ω → Except ChainError Unit × List ω
  | [], observers => (.ok (), observers)
  | notice :: later, observers =>
    match tellEach db notice observers with
    | (.ok (), observers) => publish db later observers
    | failed => failed

end Observer

inductive Watcher where
  | idle
  -- Keeps what it is told, latest first, and fails on notices of one name.
  | recorder (log : List Notice) (refused : Option String)
  | named (name : String) (refused : Option String)

namespace Watcher

def name : Watcher → String
  | idle => "noop"
  | recorder _ _ => "recorder"
  | named name _ => name

instance : Observer Watcher where
  name := name
  tell _ notice
    | idle => (.ok (), idle)
    | recorder log refused =>
      (if refused = some notice.name then .error ("refusing " ++ notice.name) else .ok (),
        recorder (notice :: log) refused)
    | named name refused =>
      (if refused = some notice.name then .error (name ++ " says no") else .ok (), named name refused)

def events? : Watcher → Option (List Notice)
  | recorder log _ => some log.reverse
  | _ => none

def cleared : Watcher → Watcher
  | recorder _ refused => recorder [] refused
  | other => other

end Watcher

end RoomLedger
