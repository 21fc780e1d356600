import RoomLedger.Chain.Genesis
import RoomLedger.Chain.Nested
import RoomLedger.Chain.Observer

namespace RoomLedger

structure OpenBlock where
  receipt : BlockReceipt
  pushed : Nat

-- The database changes only inside of block sessions, of which one is open at a time. A fatal error
-- takes the open block back and stops the chain for good.
structure Chain (ω : Type) where
  db : Database
  config : Config
  -- In the order in which they are told.
  observers : List ω
  openBlock : Option OpenBlock
  -- The text of the fatal error that stopped the chain.
  halted : Option String

-- An action on a chain. What it did before it failed stays done.
abbrev Chain.Action (ω α : Type) := ExceptT ChainError (StateM (Chain ω)) α

namespace Chain

variable {ω α : Type}

def start (config : Config) (genesis : Genesis) (observers : List ω) : Except ChainError (Chain ω) :=
  match genesis.apply Database.empty.registerAll with
  | (.ok (), db) => .ok ⟨db, config, observers, none, none⟩
  | (.error e, _) => .error e

def headId : HeadId := ⟨0⟩
def globalsId : GlobalsId := ⟨0⟩

def head (c : Chain ω) : Except ChainError Head := (c.db.get .head headId.id).mapError .database

def fees (c : Chain ω) : Except ChainError FeeSchedule :=
  (c.db.get .globals globalsId.id).mapError .database |>.map fun g => g.parameters.fees

def ensureRunning (c : Chain ω) : Except ChainError Unit :=
  match c.halted with
  | some reason => .error (.halted reason)
  | none => .ok ()

-- Stops the chain if the error is fatal. The first one stays the reason.
def halt (e : ChainError) (c : Chain ω) : Chain ω :=
  if e.isFatal && c.halted.isNone then { c with halted := some e.message } else c

def halting (action : Action ω α) : Action ω α := fun c =>
  match action c with
  | (.ok a, c) => (.ok a, c)
  | (.error e, c) => (.error e, c.halt e)

def onDatabase (change : Change ChainError α) : Action ω α := fun c =>
  let (result, db) := change c.db
  (result, { c with db := db })

def rollback : Change ChainError Unit := Database.undo.adapt .rollback

-- Blocks follow the head without a gap, and time does not run back.
def approveBlock (c : Chain ω) (number : UInt32) (time : Timestamp) : Except ChainError Unit := do
  c.ensureRunning
  if c.openBlock.isSome then .error .sessionAlreadyOpen
  let head ← c.head
  if head.number.toNat + 1 ≠ number.toNat then .error (.refused (.blockOutOfOrder head.number number))
  if time.seconds < head.time.seconds then .error (.refused (.timeRegressed head.time time))

def beginBlock (number : UInt32) (time : Timestamp) : Action ω Unit := fun c =>
  match c.approveBlock number time with
  | .error e => (.error e, c)
  | .ok () =>
    let advance := Database.modify .head headId.id fun h => { h with number := number, time := time }
    match advance c.db.push with
    | (.ok (), db) =>
      (.ok (), { c with db := db, openBlock := some ⟨.empty number time, 0⟩ })
    | (.error cause, db) =>
      halting (onDatabase do rollback; throw (.database cause)) { c with db := db }

def blockTime (c : Chain ω) : Except ChainError Timestamp :=
  match c.openBlock with
  | some block => .ok block.receipt.time
  | none => .error .noActiveSession

-- Enters what became of a pushed transaction. A fatal error has no entry, as its block has none.
def OpenBlock.record (t : Transaction) (result : Except ChainError (List Outcome)) (block : OpenBlock) :
    OpenBlock :=
  let receipt := match result with
    | .ok results =>
      { block.receipt with applied := block.receipt.applied ++ [⟨block.pushed, t, results⟩] }
    | .error e =>
      if e.isFatal then block.receipt
      else { block.receipt with rejected := block.receipt.rejected ++ [⟨block.pushed, t, e.message⟩] }
  ⟨receipt, block.pushed + 1⟩

def recording (t : Transaction) (outcomes : α → List Outcome) (action : Action ω α) : Action ω α :=
  fun c =>
    let (result, c) := action c
    (result, { c with openBlock := c.openBlock.map (OpenBlock.record t (result.map outcomes)) })

-- Performs an operation alone. Its signers are not asked for.
def pushOperation (op : Operation) : Action ω Outcome := fun c =>
  match (do c.ensureRunning; c.blockTime) with
  | .error e => (.error e, c)
  | .ok time =>
    let perform := onDatabase (nested (op.perform c.config time []))
    halting (recording (.single op) (fun outcome => [outcome]) perform) c

def performTransaction (t : Transaction) : Action ω (List Outcome) := fun c =>
  match (do let time ← c.blockTime; (t.approve c.config).mapError ChainError.refused; return time) with
  | .error e => (.error e, c)
  | .ok time => onDatabase (t.perform c.config time) c

def pushTransaction (t : Transaction) : Action ω (List Outcome) := fun c =>
  match c.ensureRunning with
  | .error e => (.error e, c)
  | .ok () => halting (recording t id (performTransaction t)) c

def abandon : Action ω Unit := fun c =>
  match c.openBlock with
  | none => (.error .noActiveSession, c)
  | some _ => onDatabase rollback { c with openBlock := none }

def abort : Action ω Unit := halting abandon

def announce [Observer ω] (receipt : BlockReceipt) : Action ω Unit := fun c =>
  let (result, observers) := Observer.publish c.db (c.db.netChanges.notices receipt) c.observers
  (result, { c with observers := observers })

-- The block is no longer open while the observers are told. One that fails has it taken back.
def conclude [Observer ω] : Action ω BlockReceipt := fun c =>
  match c.openBlock with
  | none => (.error .noActiveSession, c)
  | some block =>
    let c := { c with openBlock := none }
    if c.db.depth = 0 then (.error (.database .noActiveSession), c)
    else match announce block.receipt c with
      | (.ok (), c) => onDatabase (do Database.commit.adapt .database; return block.receipt) c
      | (.error e, c) => onDatabase (do rollback; throw e) c

-- On a chain that has stopped nothing is kept.
def commit [Observer ω] : Action ω BlockReceipt := fun c =>
  match c.ensureRunning with
  | .ok () => halting conclude c
  | .error e => (do abandon; throw e : Action ω BlockReceipt) c

-- A refused transaction ends the block, or is left out where transactions stand for themselves.
def pushAll : List Transaction → Action ω Unit
  | [], c => (.ok (), c)
  | t :: rest, c =>
    match pushTransaction t c with
    | (.ok _, c) => pushAll rest c
    | (.error e, c) =>
      if e.isFatal || c.config.atomicity == .wholeBlock then (do abort; throw e : Action ω Unit) c
      else pushAll rest c

def applyBlock [Observer ω] (block : Block) : Action ω BlockReceipt := do
  beginBlock block.number block.time
  pushAll block.transactions
  commit

def debugText [Observer ω] (c : Chain ω) : String :=
  let optional (text : Option String) := text.elim "None" fun t => "Some(" ++ t ++ ")"
  "Chain \x7b db: " ++ c.db.debugText ++ ", config: " ++ c.config.debugText
    ++ ", observers: [" ++ ", ".intercalate (c.observers.map fun o => Quoted.text (Observer.name o))
    ++ "], open_block: "
    ++ optional (c.openBlock.map fun block => Decimal.text block.receipt.number.toNat)
    ++ ", halted: " ++ optional (c.halted.map Quoted.text) ++ " \x7d"

end Chain

end RoomLedger
