import RoomLedger.Chain.Error
import RoomLedger.Json.Reader
import RoomLedger.Json.Printer
import RoomLedger.Store.Lookup

namespace RoomLedger

structure GenesisAsset where
  symbol : String
  precision : UInt8
  deriving DecidableEq

structure GenesisAccount where
  name : String
  balance : Shares
  deriving DecidableEq

structure Genesis where
  time : Timestamp
  coreAsset : GenesisAsset
  accounts : List GenesisAccount
  fees : FeeSchedule
  deriving DecidableEq

def GenesisAsset.standard : GenesisAsset := ⟨"ACT", 5⟩

instance : Laid GenesisAsset where
  Tuple := String × UInt8 × Unit
  layout := .field "symbol" none <| .field "precision" none .done
  toTuple a := (a.symbol, a.precision, ())
  ofTuple := fun (symbol, precision, _) => ⟨symbol, precision⟩

instance : Laid GenesisAccount where
  Tuple := String × Shares × Unit
  layout := .field "name" none <| .field "balance" (some 0) .done
  toTuple a := (a.name, a.balance, ())
  ofTuple := fun (name, balance, _) => ⟨name, balance⟩

instance : Laid Genesis where
  Tuple := Timestamp × GenesisAsset × List GenesisAccount × FeeSchedule × Unit
  layout := .field "initial_timestamp" none <| .field "core_asset" (some .standard) <|
    .field "initial_accounts" (some []) <| .field "fee_schedule" (some .standard) .done
  toTuple g := (g.time, g.coreAsset, g.accounts, g.fees, ())
  ofTuple := fun (time, coreAsset, accounts, fees, _) => ⟨time, coreAsset, accounts, fees⟩

namespace Genesis

def committeeName : String := "committee-account"
def witnessName : String := "witness-account"

def ofAccounts (time : Timestamp) (accounts : List GenesisAccount) : Genesis :=
  ⟨time, .standard, accounts, .standard⟩

def ofString (text : String) : Except ChainError Genesis :=
  match Json.ofString? text >>= Form.read with
  | some genesis => .ok genesis
  | none => .error (.genesis "invalid JSON")

def text (g : Genesis) : String := (Form.write g).pretty

-- Two accounts are always there: listing one of them funds it and makes no new account.
def isReserved (name : String) : Bool := name == committeeName || name == witnessName

def accountId? (g : Genesis) (name : String) : Option AccountId :=
  if name = committeeName then some committeeAccount
  else if name = witnessName then some witnessAccount
  else
    let others := g.accounts.filter fun a => !isReserved a.name
    (others.findIdx? fun a => a.name == name).map fun n => ⟨2 + n⟩

-- One listed account after those before it, whose names and whose total are known.
def checkAccount (known : List String × Shares) (a : GenesisAccount) :
    Except ChainError (List String × Shares) :=
  if !Operation.isAccountName a.name then .error (.genesis ("invalid account name '" ++ a.name ++ "'"))
  else if known.1.contains a.name then .error (.genesis ("account '" ++ a.name ++ "' listed twice"))
  else if a.balance < 0 then .error (.genesis ("negative balance for '" ++ a.name ++ "'"))
  else match known.2.addExact? a.balance with
    | some total =>
      if total ≤ maxSupply then .ok (a.name :: known.1, total)
      else .error (.genesis "initial supply exceeds maximum")
    | none => .error (.genesis "initial supply exceeds maximum")

def check (g : Genesis) : Except ChainError Unit := do
  if g.coreAsset.symbol.isEmpty then .error (.genesis "core asset symbol is empty")
  let _ ← g.accounts.foldlM checkAccount ([], 0)

def openAccount (registrar : AccountId) (name : String) : Change DbError AccountId := do
  match (← get).accountNamed? name with
  | some account => return account.id
  | none =>
    let account ← Database.create .account fun a => { a with name := name, registrar := registrar }
    return account.id

def endow (registrar : AccountId) (sum : Shares) (a : GenesisAccount) : Change DbError Shares := do
  let account ← openAccount registrar a.name
  if 0 < a.balance then
    let _ ← Database.create .balance fun b =>
      { b with owner := account, asset := RoomLedger.coreAsset, amount := a.balance }
    return sum + a.balance
  return sum

def populate (g : Genesis) : Change DbError Unit := do
  let committee ← Database.create .account fun a =>
    { a with name := committeeName, registrar := committeeAccount }
  let _ ← Database.create .account fun a => { a with name := witnessName, registrar := committee.id }
  let supply ← Database.create .supply id
  let _ ← Database.create .asset fun a =>
    { a with symbol := g.coreAsset.symbol, precision := g.coreAsset.precision,
             issuer := committee.id, supply := supply.id }
  let total ← g.accounts.foldlM (endow committee.id) 0
  Database.modify .supply supply.id.id fun s => { s with current := total }
  let _ ← Database.create .globals fun r => { r with parameters := ⟨g.fees⟩ }
  let _ ← Database.create .head fun h => { h with number := 0, time := g.time }

def apply (g : Genesis) : Change ChainError Unit := do
  if (← get).size ≠ 0 then throw (.genesis "database is not empty")
  liftM g.check
  g.populate.adapt .database

end Genesis

end RoomLedger
