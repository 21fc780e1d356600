import RoomLedger.Rule.Basic

namespace RoomLedger.Rule

def createSport : Rule CreateSport where
  Plan := Unit
  noPlan := ()
  examine _ _ := .ok ()
  carryOut _ _ p := do
    let sport ← Write.create OperationKind.createSport.name .sport fun s => { s with name := p.name }
    return .object sport.id

def updateSport : Rule UpdateSport where
  Plan := Unit
  noPlan := ()
  examine c p := do
    let _ ← c.get p.sport
  carryOut _ _ p := do
    p.newName.forM fun name =>
      Write.modify OperationKind.updateSport.name p.sport fun s => { s with name := name }
    return .nothing

-- The plan is the event groups of the sport, which go with it.
def deleteSport : Rule DeleteSport where
  Plan := List EventGroupId
  noPlan := []
  examine c p := do
    let _ ← c.get p.sport
    let groups ← (c.db.startingWith .eventGroup "by_sport" [p.sport.part]).mapError .ofDatabase
    return groups.map EventGroup.id
  carryOut _ groups p := do
    let name := OperationKind.deleteSport.name
    groups.forM (Write.remove name)
    Write.remove name p.sport
    return .touched ⟨.empty, .empty, .ofList (p.sport.id :: groups.map RecordId.id)⟩

def createEventGroup : Rule CreateEventGroup where
  Plan := SportId
  noPlan := ⟨0⟩
  examine c p := do return (← c.resolveRecord .sport p.sport).id
  carryOut _ sport p := do
    let group ← Write.create OperationKind.createEventGroup.name .eventGroup fun g =>
      { g with name := p.name, sport := sport }
    return .object group.id

def updateEventGroup : Rule UpdateEventGroup where
  Plan := Option SportId
  noPlan := none
  examine c p := do
    let _ ← c.get p.group
    p.newSport.mapM fun id => do return (← c.resolveRecord .sport id).id
  carryOut _ sport p := do
    Write.modify OperationKind.updateEventGroup.name p.group fun g =>
      { g with name := p.newName.getD g.name, sport := sport.getD g.sport }
    return .nothing

def deleteEventGroup : Rule DeleteEventGroup where
  Plan := Unit
  noPlan := ()
  examine c p := do
    let _ ← c.get p.group
  carryOut _ _ p := do
    Write.remove OperationKind.deleteEventGroup.name p.group
    return .nothing

end RoomLedger.Rule
