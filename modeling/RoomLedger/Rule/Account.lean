import RoomLedger.Rule.Basic

namespace RoomLedger.Rule

-- A sender of the core asset must have the fee left over, which leaves the same balance later.
def transfer : Rule Transfer where
  Plan := Unit
  noPlan := ()
  examine c p := do
    let _ ← c.get p.sender
    let _ ← c.get p.receiver
    let _ ← c.get p.amount.asset
    let required :=
      if p.amount.asset = coreAsset then p.amount.amount.addClamped c.fee else p.amount.amount
    c.requireHolding p.sender p.amount.asset required
  carryOut _ _ p := do
    let name := OperationKind.transfer.name
    Write.adjust name p.sender p.amount.asset (-p.amount.amount)
    Write.adjust name p.receiver p.amount.asset p.amount.amount
    return .nothing

def createAccount : Rule CreateAccount where
  Plan := Unit
  noPlan := ()
  examine c p := do
    let _ ← c.get p.registrar
    if (c.db.accountNamed? p.name).isSome then .error (.duplicateAccountName p.name)
  carryOut _ _ p := do
    let account ← Write.create OperationKind.createAccount.name .account fun a =>
      { a with name := p.name, registrar := p.registrar }
    return .object account.id

end RoomLedger.Rule
