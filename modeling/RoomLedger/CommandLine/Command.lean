import RoomLedger.CommandLine.Arguments
import RoomLedger.Text.Decimal

namespace RoomLedger.CommandLine

inductive Format where
  | text
  | json
  deriving DecidableEq, Repr

def Format.ofName? (name : String) : Option Format :=
  if name = "text" then some .text else if name = "json" then some .json else none

structure ReplayRequest where
  genesis : String
  blocks : String
  config : Option String
  events : Option String
  verify : Bool

structure GenesisRequest where
  -- Each a name, an equals sign and a balance.
  accounts : List String
  time : UInt32
  output : Option String

inductive Command where
  | replay (request : ReplayRequest)
  | parseId (id : String)
  -- The fees of a genesis file, or the usual ones.
  | fees (genesis : Option String)
  | genesis (request : GenesisRequest)

structure Invocation where
  format : Format
  command : Command

def anyText (_ : String) : Bool := true
def isPath (value : String) : Bool := !value.isEmpty

def time? (value : String) : Option UInt32 := do
  match ← Decimal.ofSigned? value.toList with
  | .ofNat n => if n < UInt32.size then some (.ofNat n) else none
  | .negSucc _ => none

def sharedOptions : List CommandOption :=
  [⟨"verbose", some 'v', .alone⟩, ⟨"format", none, .once fun v => (Format.ofName? v).isSome⟩,
    ⟨"help", some 'h', .alone⟩]

def top : Level :=
  ⟨⟨"version", some 'V', .alone⟩ :: sharedOptions, ["replay", "parse-id", "fees", "genesis", "help"], 0⟩

def replayLevel : Level :=
  ⟨[⟨"genesis", none, .once isPath⟩, ⟨"blocks", none, .once isPath⟩, ⟨"config", none, .once isPath⟩,
    ⟨"events", none, .once isPath⟩, ⟨"verify", none, .alone⟩] ++ sharedOptions, [], 0⟩

def parseIdLevel : Level := ⟨sharedOptions, [], 1⟩

def feesLevel : Level := ⟨⟨"genesis", none, .once isPath⟩ :: sharedOptions, [], 0⟩

def genesisLevel : Level :=
  ⟨[⟨"account", none, .repeated anyText⟩, ⟨"time", none, .once fun v => (time? v).isSome⟩,
    ⟨"output", some 'o', .once isPath⟩] ++ sharedOptions, [], 0⟩

def required (r : Reading) (name : String) : Except Stop String :=
  match r.value? name with
  | some value => .ok value
  | none => .error .misuse

def Command.ofReading (name : String) (r : Reading) : Except Stop Command := do
  match name with
  | "replay" =>
    return .replay ⟨← required r "genesis", ← required r "blocks", r.value? "config", r.value? "events",
      r.isGiven "verify"⟩
  | "parse-id" =>
    match r.plain with
    | [id] => return .parseId id
    | _ => .error .misuse
  | "fees" => return .fees (r.value? "genesis")
  | "genesis" =>
    return .genesis ⟨r.values "account", ((r.value? "time").bind time?).getD 0, r.value? "output"⟩
  | _ => .error .misuse

def levelOf? : String → Option Level
  | "replay" => some replayLevel
  | "parse-id" => some parseIdLevel
  | "fees" => some feesLevel
  | "genesis" => some genesisLevel
  | _ => none

-- A format given with the command counts more than one given before it.
def Invocation.ofArguments (arguments : List String) : Except Stop Invocation := do
  match ← top.read .start arguments with
  | (_, none) => .error .misuse
  | (_, some ("help", [])) => .error .help
  | (_, some ("help", [name])) => .error (if top.commands.contains name then .help else .misuse)
  | (outer, some (name, rest)) =>
    match levelOf? name with
    | none => .error .misuse
    | some level =>
      let (inner, _) ← level.read .start rest
      let outer ← outer.settle
      let command ← Command.ofReading name inner
      let format := (inner.value? "format").or (outer.value? "format") >>= Format.ofName?
      return ⟨format.getD .text, command⟩

end RoomLedger.CommandLine
