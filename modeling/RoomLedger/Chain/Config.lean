import RoomLedger.Chain.Error
import RoomLedger.Toml.Reader

namespace RoomLedger

inductive Atomicity where
  | wholeBlock
  | perTransaction
  deriving DecidableEq, Inhabited, Repr

namespace Atomicity

def name : Atomicity → String
  | wholeBlock => "whole_block"
  | perTransaction => "per_transaction"

def ofName? (name : String) : Option Atomicity :=
  [wholeBlock, perTransaction].find? fun a => a.name == name

instance : Wire Atomicity where
  write a := Wire.lowBytes 4 (match a with | wholeBlock => 0 | perTransaction => 1)
  read := do
    match ← Wire.readNat 4 with
    | 0 => return wholeBlock
    | 1 => return perTransaction
    | _ => Wire.malformed

-- A choice may also be written as a record of its name with nothing in it.
instance : Form Atomicity where
  write a := .ofText a.name
  read
    | .record [(name, .null)] => do ofName? (← Spelling.text? name)
    | tree => do ofName? (← tree.asText?)

def ofToml? : Toml → Option Atomicity
  | .text name => ofName? name
  | .table _ [(name, .table _ [])] | .table _ [(name, .list [])] => ofName? name
  | _ => none

def debugText : Atomicity → String
  | wholeBlock => "WholeBlock"
  | perTransaction => "PerTransaction"

end Atomicity

structure Config where
  atomicity : Atomicity
  enforceAuthorities : Bool
  maxRoomName : UInt64
  -- The most participants of a room, its owner included.
  maxParticipants : UInt64
  deriving DecidableEq

namespace Config

def standard : Config := ⟨.wholeBlock, true, 256, 1024⟩

-- For replays of logs without signatures.
def permissive : Config := { standard with atomicity := .perTransaction, enforceAuthorities := false }

instance : Inhabited Config := ⟨standard⟩

instance : Laid Config where
  Tuple := Atomicity × Bool × UInt64 × UInt64 × Unit
  layout := .field "block_atomicity" (some standard.atomicity) <|
    .field "enforce_authorities" (some standard.enforceAuthorities) <|
    .field "max_room_name_length" (some standard.maxRoomName) <|
    .field "max_room_participants" (some standard.maxParticipants) .done
  toTuple c := (c.atomicity, c.enforceAuthorities, c.maxRoomName, c.maxParticipants, ())
  ofTuple := fun (atomicity, enforceAuthorities, maxRoomName, maxParticipants, _) =>
    ⟨atomicity, enforceAuthorities, maxRoomName, maxParticipants⟩

def check (c : Config) : Except ChainError Config :=
  if c.maxRoomName = 0 ∨ UInt64.ofNat Operation.maxRoomNameBytes < c.maxRoomName then
    .error (.config "max_room_name_length must be in 1..=256")
  else if c.maxParticipants = 0 then .error (.config "max_room_participants must be at least 1")
  else .ok c

def count? : Toml → Option UInt64
  | .integer (.ofNat n) => some (.ofNat n)
  | _ => none

def flag? : Toml → Option Bool
  | .bool value => some value
  | _ => none

-- A setting that is left out is the standard one.
def ofMembers? (members : Toml.Members) : Option Config := do
  let setting {α : Type} (name : String) (absent : α) (read : Toml → Option α) : Option α :=
    (Toml.find? name members).elim (some absent) read
  return ⟨← setting "block_atomicity" standard.atomicity Atomicity.ofToml?,
    ← setting "enforce_authorities" standard.enforceAuthorities flag?,
    ← setting "max_room_name_length" standard.maxRoomName count?,
    ← setting "max_room_participants" standard.maxParticipants count?⟩

def ofFile (text : String) : Except ChainError Config :=
  match Toml.ofString? text >>= ofMembers? with
  | some config => config.check
  | none => .error (.config "invalid TOML")

def flagText (value : Bool) : String := if value then "true" else "false"

def fileText (c : Config) : String :=
  let line (name value : String) := name ++ " = " ++ value ++ "\n"
  line "block_atomicity" ("\"" ++ c.atomicity.name ++ "\"")
    ++ line "enforce_authorities" (flagText c.enforceAuthorities)
    ++ line "max_room_name_length" (Decimal.text c.maxRoomName.toNat)
    ++ line "max_room_participants" (Decimal.text c.maxParticipants.toNat)

def debugText (c : Config) : String :=
  "ChainConfig \x7b block_atomicity: " ++ c.atomicity.debugText ++ ", enforce_authorities: "
    ++ flagText c.enforceAuthorities ++ ", max_room_name_length: "
    ++ Decimal.text c.maxRoomName.toNat ++ ", max_room_participants: "
    ++ Decimal.text c.maxParticipants.toNat ++ " \x7d"

end Config

end RoomLedger
