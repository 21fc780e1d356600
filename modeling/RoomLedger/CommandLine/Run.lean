import RoomLedger.Block.Log
import RoomLedger.CommandLine.Command
import RoomLedger.CommandLine.Report

namespace RoomLedger.CommandLine

-- A place with files. What cannot be read or written is not there, for whatever reason.
class Files (m : Type → Type) where
  read : String → m (Option (List UInt8))
  write : String → List UInt8 → m Bool

abbrev Run (m : Type → Type) (α : Type) := ExceptT String m α

variable {m : Type → Type} [Monad m] [Files m]

instance : Files (Run m) where
  read path := liftM (Files.read (m := m) path)
  write path bytes := liftM (Files.write (m := m) path bytes)

def orFail {α : Type} (reason : String) : Option α → Run m α
  | some a => return a
  | none => throw reason

def inChain {α : Type} (result : Except ChainError α) : Run m α :=
  match result with
  | .ok a => return a
  | .error e => throw e.message

def readText? (path : String) : Run m (Option String) := do
  return (← Files.read path) >>= Wire.ofUtf8?

def writeText (doing path text : String) : Run m Unit := do
  if !(← Files.write path (Wire.utf8 text)) then throw (doing ++ " " ++ path)

def unreadable (path : String) : String := "failed to read '" ++ path ++ "'"

def loadConfig : Option String → Run m Config
  | none => return .standard
  | some path => do
    match ← readText? path with
    | some text => inChain (Config.ofFile text)
    | none => throw (ChainError.config (unreadable path)).message

def loadGenesis (path : String) : Run m Genesis := do
  match ← readText? path with
  | some text => inChain (Genesis.ofString text)
  | none => throw (ChainError.genesis (unreadable path)).message

def isJsonPath (path : String) : Bool :=
  let name := path.toList.reverse.takeWhile (· != '/')
  ['n', 'o', 's', 'j', '.'].isPrefixOf name && 5 < name.length

def loadBlocks (path : String) : Run m (List Block) := do
  match ← Files.read path with
  | none => throw ("reading " ++ path)
  | some bytes =>
    if isJsonPath path then
      orFail ("parsing " ++ path) (Json.ofCharacters? (Wire.characters bytes) >>= Form.read)
    else orFail ("decoding " ++ path) (Log.read bytes).toOption

def eventLines (events : List Notice) : String := lines (events.map fun n => n.toJson.compact)

def replay (format : Format) (request : ReplayRequest) : Run m String := do
  let config ← loadConfig request.config
  let genesis ← loadGenesis request.genesis
  let blocks ← loadBlocks request.blocks
  let chain ← inChain (Chain.start config genesis [Watcher.recorder [] none])
  let (result, chain) := Chain.replay blocks chain
  let replay ← inChain result
  let events := (chain.observers.filterMap Watcher.events?).flatten
  match request.events with
  | some path => writeText "creating" path (eventLines events)
  | none => pure ()
  let alike ← if request.verify then
      -- The files are read again, as they are now.
      let genesis ← loadGenesis request.genesis
      let blocks ← loadBlocks request.blocks
      let config ← loadConfig request.config
      pure (some (← inChain (Chain.replaysAlike config genesis blocks)))
    else pure none
  if alike = some false then throw "replays of the same log produced different states"
  match format with
  | .json => return page (replayJson replay alike)
  | .text => return replayText replay alike (request.events.map fun path => (events.length, path))

def parseId (format : Format) (text : String) : Run m String :=
  match ObjectId.parse text with
  | .error e => throw e.message
  | .ok id =>
    match format with
    | .json => return page (idJson id)
    | .text => return idText id

def fees (format : Format) (genesis : Option String) : Run m String := do
  let schedule ← match genesis with
    | some path => do pure (← loadGenesis path).fees
    | none => pure FeeSchedule.standard
  match format with
  | .json => return page (feesJson schedule)
  | .text => return feesText schedule

def accountOf (entry : String) : Run m GenesisAccount := do
  let name := entry.toList.takeWhile (· != '=')
  match entry.toList.drop name.length with
  | [] => throw ("account must be name=balance, got " ++ Quoted.text entry)
  | _ :: balance =>
    let amount ← orFail ("bad balance in " ++ Quoted.text entry)
      (Decimal.ofSigned? balance >>= Shares.ofInt?)
    return ⟨String.ofList name, amount⟩

def genesis (request : GenesisRequest) : Run m String := do
  let genesis := Genesis.ofAccounts ⟨request.time⟩ (← request.accounts.mapM accountOf)
  match request.output with
  | none => return lines [genesis.text]
  | some path =>
    writeText "writing" path genesis.text
    return lines ["✓ Wrote genesis with " ++ Decimal.text genesis.accounts.length ++ " accounts to " ++ path]

def Invocation.run (i : Invocation) : Run m String :=
  match i.command with
  | .replay request => replay i.format request
  | .parseId id => parseId i.format id
  | .fees path => fees i.format path
  | .genesis request => genesis request

def programName : String := "acta"

def versionText : String := programName ++ " 0.1.0"

def usageText : String :=
  "Usage: " ++ programName ++ " [OPTIONS] <COMMAND>\n\n"
    ++ "Commands: " ++ ", ".intercalate top.commands ++ "\n"
    ++ "Options: " ++ ", ".intercalate (top.options.map fun o => "--" ++ o.long)

structure Report where
  output : String
  code : UInt8
  failure : Option String

def program (arguments : List String) : m Report := do
  match Invocation.ofArguments arguments with
  | .error .misuse => return ⟨"", 2, some usageText⟩
  | .error .help => return ⟨lines [usageText], 0, none⟩
  | .error .version => return ⟨lines [versionText], 0, none⟩
  | .ok invocation =>
    match ← invocation.run.run with
    | .ok output => return ⟨output, 0, none⟩
    | .error reason => return ⟨"", 1, some ("Error: " ++ reason)⟩

end RoomLedger.CommandLine
