import RoomLedger.Chain.Genesis
import RoomLedger.Rule.Execution
import RoomLedger.Proofs.RecordEdits

namespace RoomLedger

open Change

namespace OperationKind

-- The kinds of records that carrying out an operation and charging for it may edit.
def written : OperationKind → List Kind
  | transfer => [.balance]
  | createAccount => [.account]
  | createRoom => [.room, .participant, .epochKey]
  | updateRoom => [.room]
  | addParticipant => [.participant, .epochKey]
  | removeParticipant => [.participant]
  | rotateKey => [.room, .participant, .epochKey]
  | deleteRoom => [.room, .participant, .epochKey]
  | createSport => [.sport]
  | updateSport => [.sport]
  | deleteSport => [.eventGroup, .sport]
  | createEventGroup => [.eventGroup]
  | updateEventGroup => [.eventGroup]
  | deleteEventGroup => [.eventGroup]

end OperationKind

namespace Write

variable {kinds : List Kind} {k : Kind}

theorem create_edits (listed : k ∈ kinds) (operation : String) (fill : k.Row → k.Row) :
    (Write.create operation k fill).Edits kinds := Change.create_edits listed fill

theorem modify_edits (listed : k ∈ kinds) (operation : String) (id : RecordId k) (change : k.Row → k.Row) :
    (Write.modify operation id change).Edits kinds := Change.modify_edits listed id.id change

theorem remove_edits (listed : k ∈ kinds) (operation : String) (id : RecordId k) :
    (Write.remove operation id).Edits kinds :=
  bind_edits (Change.remove_edits listed id.id) fun _ => pure_edits _

theorem current_edits : current.Edits kinds := edits_of_eq fun _ => rfl

theorem adjust_edits (listed : Kind.balance ∈ kinds) (operation : String) (owner : AccountId)
    (asset : AssetId) (delta : Shares) : (adjust operation owner asset delta).Edits kinds := by
  apply bind_edits current_edits
  intro db
  dsimp only
  split
  · exact throw_edits _
  · split
    · exact modify_edits listed operation _ _
    · exact bind_edits (create_edits listed operation _) fun _ => pure_edits _

theorem epochKey_edits (listed : Kind.epochKey ∈ kinds) (operation : String) (room : RoomId)
    (epoch : UInt32) (account : AccountId) (key : String) :
    (Write.epochKey operation room epoch account key).Edits kinds := by
  apply bind_edits current_edits
  intro db
  split
  · exact bind_edits (modify_edits listed operation _ _) fun _ => pure_edits _
  · exact bind_edits (create_edits listed operation _) fun _ => pure_edits _

end Write

namespace Rule

open Write

theorem transfer_edits (time : Timestamp) (plan : transfer.Plan) (p : Transfer) :
    (transfer.carryOut time plan p).Edits [.balance] := by
  have listed : Kind.balance ∈ [Kind.balance] := by decide
  exact bind_edits (adjust_edits listed _ _ _ _) fun _ =>
    bind_edits (adjust_edits listed _ _ _ _) fun _ => pure_edits _

theorem createAccount_edits (time : Timestamp) (plan : createAccount.Plan) (p : CreateAccount) :
    (createAccount.carryOut time plan p).Edits [.account] :=
  bind_edits (create_edits (by simp) _ _) fun _ => pure_edits _

theorem createRoom_edits (time : Timestamp) (plan : createRoom.Plan) (p : CreateRoom) :
    (createRoom.carryOut time plan p).Edits [.room, .participant, .epochKey] :=
  bind_edits (create_edits (by simp) _ _) fun _ =>
    bind_edits (create_edits (by simp) _ _) fun _ =>
      bind_edits (epochKey_edits (by simp) _ _ _ _ _) fun _ => pure_edits _

theorem updateRoom_edits (time : Timestamp) (plan : updateRoom.Plan) (p : UpdateRoom) :
    (updateRoom.carryOut time plan p).Edits [.room] :=
  bind_edits (modify_edits (by simp) _ _ _) fun _ => pure_edits _

theorem addParticipant_edits (time : Timestamp) (plan : addParticipant.Plan) (p : AddParticipant) :
    (addParticipant.carryOut time plan p).Edits [.participant, .epochKey] := by
  apply bind_edits (create_edits (by simp) _ _)
  intro _
  apply bind_edits (epochKey_edits (by simp) _ _ _ _ _)
  intro _
  refine bind_edits (forM_edits (fun past => ?_) _) fun _ => pure_edits _
  exact bind_edits (epochKey_edits (by simp) _ _ _ _ _) fun _ => pure_edits _

theorem removeParticipant_edits (time : Timestamp) (plan : removeParticipant.Plan)
    (p : RemoveParticipant) : (removeParticipant.carryOut time plan p).Edits [.participant] :=
  bind_edits (remove_edits (by simp) _ _) fun _ => pure_edits _

theorem rotateKey_edits (time : Timestamp) (plan : rotateKey.Plan) (p : RotateKey) :
    (rotateKey.carryOut time plan p).Edits [.room, .participant, .epochKey] := by
  apply bind_edits (modify_edits (by simp) _ _ _)
  intro _
  refine bind_edits (mapM_edits (fun member => ?_) _) fun _ => pure_edits _
  dsimp only
  split
  · exact throw_edits _
  · exact bind_edits (modify_edits (by simp) _ _ _) fun _ => epochKey_edits (by simp) _ _ _ _ _

theorem deleteRoom_edits (time : Timestamp) (plan : deleteRoom.Plan) (p : DeleteRoom) :
    (deleteRoom.carryOut time plan p).Edits [.room, .participant, .epochKey] :=
  bind_edits (forM_edits (fun _ => remove_edits (by simp) _ _) _) fun _ =>
    bind_edits (forM_edits (fun _ => remove_edits (by simp) _ _) _) fun _ =>
      bind_edits (remove_edits (by simp) _ _) fun _ => pure_edits _

theorem createSport_edits (time : Timestamp) (plan : createSport.Plan) (p : CreateSport) :
    (createSport.carryOut time plan p).Edits [.sport] :=
  bind_edits (create_edits (by simp) _ _) fun _ => pure_edits _

theorem updateSport_edits (time : Timestamp) (plan : updateSport.Plan) (p : UpdateSport) :
    (updateSport.carryOut time plan p).Edits [.sport] := by
  refine bind_edits ?_ fun _ => pure_edits _
  cases p.newName with
  | none => exact pure_edits _
  | some name => exact modify_edits (by simp) _ _ _

theorem deleteSport_edits (time : Timestamp) (plan : deleteSport.Plan) (p : DeleteSport) :
    (deleteSport.carryOut time plan p).Edits [.eventGroup, .sport] :=
  bind_edits (forM_edits (fun _ => remove_edits (by simp) _ _) _) fun _ =>
    bind_edits (remove_edits (by simp) _ _) fun _ => pure_edits _

theorem createEventGroup_edits (time : Timestamp) (plan : createEventGroup.Plan) (p : CreateEventGroup) :
    (createEventGroup.carryOut time plan p).Edits [.eventGroup] :=
  bind_edits (create_edits (by simp) _ _) fun _ => pure_edits _

theorem updateEventGroup_edits (time : Timestamp) (plan : updateEventGroup.Plan) (p : UpdateEventGroup) :
    (updateEventGroup.carryOut time plan p).Edits [.eventGroup] :=
  bind_edits (modify_edits (by simp) _ _ _) fun _ => pure_edits _

theorem deleteEventGroup_edits (time : Timestamp) (plan : deleteEventGroup.Plan) (p : DeleteEventGroup) :
    (deleteEventGroup.carryOut time plan p).Edits [.eventGroup] :=
  bind_edits (remove_edits (by simp) _ _) fun _ => pure_edits _

end Rule

namespace Operation

theorem carryOut_edits (op : Operation) (time : Timestamp) (plan : op.Plan) :
    (op.carryOut time plan).Edits op.kind.written := by
  cases op with
  | transfer p => exact Rule.transfer_edits time plan p
  | createAccount p => exact Rule.createAccount_edits time plan p
  | createRoom p => exact Rule.createRoom_edits time plan p
  | updateRoom p => exact Rule.updateRoom_edits time plan p
  | addParticipant p => exact Rule.addParticipant_edits time plan p
  | removeParticipant p => exact Rule.removeParticipant_edits time plan p
  | rotateKey p => exact Rule.rotateKey_edits time plan p
  | deleteRoom p => exact Rule.deleteRoom_edits time plan p
  | createSport p => exact Rule.createSport_edits time plan p
  | updateSport p => exact Rule.updateSport_edits time plan p
  | deleteSport p => exact Rule.deleteSport_edits time plan p
  | createEventGroup p => exact Rule.createEventGroup_edits time plan p
  | updateEventGroup p => exact Rule.updateEventGroup_edits time plan p
  | deleteEventGroup p => exact Rule.deleteEventGroup_edits time plan p

theorem charge_edits (name : String) (payer : AccountId) (fee : Shares) :
    (charge name payer fee).Edits [.balance, .supply] := by
  unfold charge
  split
  · apply bind_edits (Write.adjust_edits (by simp) _ _ _ _)
    intro _
    apply bind_edits (edits_of_eq fun _ => rfl)
    intro _
    exact Write.modify_edits (by simp) _ _ _
  · exact pure_edits _

theorem settle_edits (op : Operation) (time : Timestamp) (fee : Shares) (approval : Option op.Approval) :
    (op.settle time fee approval).Edits (op.kind.written ++ [.balance, .supply]) := by
  unfold settle
  cases approval with
  | none => exact throw_edits _
  | some approval =>
    refine bind_edits ?_ fun _ => bind_edits ?_ fun _ => pure_edits _
    · exact fun db => (carryOut_edits op time approval.plan db).widen fun _ => List.mem_append_left _
    · exact fun db => (charge_edits op.name approval.payer fee db).widen fun _ => List.mem_append_right _

theorem perform_edits (op : Operation) (config : Config) (time : Timestamp) (results : List Outcome) :
    (op.perform config time results).Edits (op.kind.written ++ [.balance, .supply]) := by
  intro db
  unfold perform
  split
  · exact .refl
  · exact .refl
  · dsimp only
    split
    · exact .refl
    · exact adapt_edits ChainError.breached (settle_edits op time _ _) db

end Operation

namespace Genesis

variable {kinds : List Kind}

theorem openAccount_edits (account : .account ∈ kinds) (registrar : AccountId) (name : String) :
    (openAccount registrar name).Edits kinds := by
  apply bind_edits (edits_of_eq fun _ => rfl)
  intro db
  split
  · exact pure_edits _
  · exact bind_edits (Change.create_edits account _) fun _ => pure_edits _

theorem endow_edits (account : .account ∈ kinds) (balance : .balance ∈ kinds) (registrar : AccountId)
    (sum : Shares) (a : GenesisAccount) : (endow registrar sum a).Edits kinds := by
  apply bind_edits (openAccount_edits account registrar a.name)
  intro opened
  split
  · exact bind_edits (Change.create_edits balance _) fun _ => pure_edits _
  · exact pure_edits _

-- A chain begins without sports and without rooms.
def written : List Kind := [.account, .supply, .asset, .balance, .globals, .head]

theorem populate_writes (g : Genesis) : g.populate.Edits written := by
  apply bind_edits (Change.create_edits (by decide) _)
  intro committee
  apply bind_edits (Change.create_edits (by decide) _)
  intro _
  apply bind_edits (Change.create_edits (by decide) _)
  intro supply
  apply bind_edits (Change.create_edits (by decide) _)
  intro _
  apply bind_edits (foldlM_edits (endow_edits (by decide) (by decide) _) _ _)
  intro total
  apply bind_edits (Change.modify_edits (by decide) _ _)
  intro _
  apply bind_edits (Change.create_edits (by decide) _)
  intro _
  exact bind_edits (Change.create_edits (by decide) _) fun _ => pure_edits _

theorem populate_edits (g : Genesis) : g.populate.Edits Kind.all :=
  fun db => (g.populate_writes db).widen fun k _ => Kind.mem_all k

end Genesis

end RoomLedger
