import RoomLedger.Rule.Account
import RoomLedger.Rule.Room
import RoomLedger.Rule.Sport

namespace RoomLedger

def OperationKind.rule : (k : OperationKind) → Rule k.Payload
  | transfer => Rule.transfer
  | createAccount => Rule.createAccount
  | createRoom => Rule.createRoom
  | updateRoom => Rule.updateRoom
  | addParticipant => Rule.addParticipant
  | removeParticipant => Rule.removeParticipant
  | rotateKey => Rule.rotateKey
  | deleteRoom => Rule.deleteRoom
  | createSport => Rule.createSport
  | updateSport => Rule.updateSport
  | deleteSport => Rule.deleteSport
  | createEventGroup => Rule.createEventGroup
  | updateEventGroup => Rule.updateEventGroup
  | deleteEventGroup => Rule.deleteEventGroup

namespace Operation

abbrev Plan (op : Operation) : Type := op.kind.rule.Plan

structure Approval (op : Operation) where
  payer : AccountId
  plan : op.Plan

def examine (op : Operation) (c : Context) : Except Refusal op.Plan := op.kind.rule.examine c op.payload

def carryOut (op : Operation) (time : Timestamp) (plan : op.Plan) : Change Breach Outcome :=
  op.kind.rule.carryOut time plan op.payload

def approve (op : Operation) (c : Context) : Except Refusal op.Approval := do
  if op.fee.asset ≠ coreAsset then .error (.feeNotCore op.fee.asset)
  if op.fee.amount < c.fee then .error (.insufficientFee c.fee op.fee.amount)
  let payer ← c.get op.payer
  if 0 < c.fee then c.requireHolding payer.id coreAsset c.fee
  return ⟨payer.id, ← op.examine c⟩

def charge (name : String) (payer : AccountId) (fee : Shares) : Change Breach Unit := do
  if 0 < fee then
    Write.adjust name payer coreAsset (-fee)
    let asset ← Write.attempt name fun db => (db.get .asset coreAsset.id, db)
    Write.modify name asset.supply fun s => { s with fees := s.fees + fee }

def settle (op : Operation) (time : Timestamp) (fee : Shares) (approval : Option op.Approval) :
    Change Breach Outcome := do
  match approval with
  | none => throw (.invariant op.name "applied before evaluation")
  | some approval =>
    let outcome ← op.carryOut time approval.plan
    charge op.name approval.payer fee
    return outcome

-- What is refused has written nothing.
def perform (op : Operation) (config : Config) (time : Timestamp) (results : List Outcome) :
    Change ChainError Outcome := fun db =>
  match op.validate, db.get .globals (⟨0⟩ : GlobalsId).id with
  | .error defect, _ => (.error (.refused (.malformed defect)), db)
  | .ok (), .error e => (.error (.database e), db)
  | .ok (), .ok globals =>
    let fee := op.scheduledFee globals.parameters.fees
    match op.approve ⟨db, config, time, fee, results⟩ with
    | .error refusal => (.error (.refused refusal), db)
    | .ok approval => (op.settle time fee (some approval)).adapt .breached db

end Operation

end RoomLedger
