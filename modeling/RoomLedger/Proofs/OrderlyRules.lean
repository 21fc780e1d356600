import RoomLedger.Proofs.RecordReferences
import RoomLedger.Proofs.RuleSteps

namespace RoomLedger

open Database Change

variable {c : Context} {db mid after : Database} {config : Config} {time : Timestamp} {outcome : Outcome}

namespace Operation

theorem checkRoomName_eq_ok {name : String} (ok : checkRoomName name = .ok ()) :
    name.isEmpty = false ∧ name.utf8ByteSize ≤ 256 := by
  obtain ⟨_, some, short⟩ := exists_of_bind_eq_ok ok
  exact ⟨by simpa using require_eq_ok some, of_decide_eq_true (require_eq_ok short)⟩

theorem validate_createAccount {p : CreateAccount} (validated : (createAccount p).validate = .ok ()) :
    isAccountName p.name = true :=
  require_eq_ok (validate_eq_ok validated)

theorem validate_createRoom {p : CreateRoom} (validated : (createRoom p).validate = .ok ()) :
    p.name.isEmpty = false ∧ p.name.utf8ByteSize ≤ 256 ∧ p.roomKey.isEmpty = false := by
  obtain ⟨_, named, keyed⟩ := exists_of_bind_eq_ok (validate_eq_ok validated)
  obtain ⟨some, short⟩ := checkRoomName_eq_ok named
  exact ⟨some, short, by simpa using require_eq_ok keyed⟩

theorem validate_updateRoom {p : UpdateRoom} (validated : (updateRoom p).validate = .ok ()) :
    p.name.isEmpty = false ∧ p.name.utf8ByteSize ≤ 256 :=
  checkRoomName_eq_ok (validate_eq_ok validated)

theorem validate_addParticipant {p : AddParticipant} (validated : (addParticipant p).validate = .ok ()) :
    p.contentKey.isEmpty = false ∧ ∀ past ∈ p.epochKeys.entries, past.2.isEmpty = false := by
  obtain ⟨_, keyed, rest⟩ := exists_of_bind_eq_ok (validate_eq_ok validated)
  have given := List.all_eq_true.mp (require_eq_ok rest)
  refine ⟨by simpa using require_eq_ok keyed, fun past member => ?_⟩
  simpa using given past.2 (List.mem_map_of_mem member)

theorem validate_rotateKey {p : RotateKey} (validated : (rotateKey p).validate = .ok ()) :
    p.newRoomKey.isEmpty = false ∧
      ∀ account key, p.participantKeys.get? account = some key → key.isEmpty = false := by
  obtain ⟨_, keyed, rest⟩ := exists_of_bind_eq_ok (validate_eq_ok validated)
  obtain ⟨_, -, rest⟩ := exists_of_bind_eq_ok rest
  have given := List.all_eq_true.mp (require_eq_ok rest)
  refine ⟨by simpa using require_eq_ok keyed, fun account key known => ?_⟩
  simpa using given key ((p.participantKeys.mem_values_iff key).mpr ⟨account, known⟩)

theorem validate_createSport {p : CreateSport} (validated : (createSport p).validate = .ok ()) :
    p.name.isWellFormed = true :=
  require_eq_ok (validate_eq_ok validated)

theorem validate_updateSport {p : UpdateSport} (validated : (updateSport p).validate = .ok ())
    {name : LocalizedName} (given : p.newName = some name) : name.isWellFormed = true := by
  have checked := validate_eq_ok validated
  simp only [checkPayload, given] at checked
  exact require_eq_ok checked

theorem validate_createEventGroup {p : CreateEventGroup}
    (validated : (createEventGroup p).validate = .ok ()) : p.name.isWellFormed = true := by
  obtain ⟨_, named, -⟩ := exists_of_bind_eq_ok (validate_eq_ok validated)
  exact require_eq_ok named

theorem validate_updateEventGroup {p : UpdateEventGroup}
    (validated : (updateEventGroup p).validate = .ok ()) {name : LocalizedName}
    (given : p.newName = some name) : name.isWellFormed = true := by
  obtain ⟨_, -, rest⟩ := exists_of_bind_eq_ok (validate_eq_ok validated)
  obtain ⟨_, named, -⟩ := exists_of_bind_eq_ok rest
  rw [given] at named
  exact require_eq_ok named

end Operation

namespace Context

theorem get_stores {k : Kind} {id : RecordId k} {row : k.Row} (ok : c.get id = .ok row) :
    c.db.Stores id.place :=
  ⟨row, get_eq_ok ok⟩

theorem checkRoomName_short {owner : AccountId} {name : String} (ok : c.checkRoomName owner name = .ok ()) :
    name.utf8ByteSize ≤ c.config.maxRoomName.toNat := by
  unfold checkRoomName at ok
  dsimp only at ok
  split at ok
  · cases ok
  · omega

theorem resolveRecord_stores (sound : c.db.Sound) {k : Kind} {id : ObjectId} {row : k.Row}
    (ok : c.resolveRecord k id = .ok row) : c.db.row? k (Stored.number row) = some row := by
  obtain ⟨resolved, -, rest⟩ := exists_of_bind_eq_ok ok
  split at rest
  · obtain ⟨n, -, stored⟩ := Database.get_eq_ok (of_mapError_eq_ok rest)
    rw [sound.numbered stored]
    exact stored
  · cases rest

end Context

namespace Database

theorem InOrder.storesKey (inOrder : db.InOrder config) {room : RoomId} {epoch : UInt32}
    {account : AccountId} {key : String} {n : Nat} (stores : db.StoresKey room epoch account key n after)
    (housed : db.Stores room.place) (known : db.Stores account.place) (formed : key.isEmpty = false) :
    after.InOrder config :=
  inOrder.put stores.puts
    (List.forall_mem_cons.mpr ⟨housed.put stores.puts, List.forall_mem_singleton.mpr (known.put stores.puts)⟩)
    formed

theorem InOrder.storesKeys (inOrder : db.InOrder config) {room : RoomId} {account : AccountId}
    {keys : List (UInt32 × String)} (stores : StoresKeys room account keys db after)
    (housed : db.Stores room.place) (known : db.Stores account.place)
    (formed : ∀ past ∈ keys, past.2.isEmpty = false) : after.InOrder config := by
  induction stores with
  | nil => exact inOrder
  | cons stores _ ih =>
    obtain ⟨first, rest⟩ := List.forall_mem_cons.mp formed
    exact ih (inOrder.storesKey stores housed known first) (housed.put stores.puts) (known.put stores.puts) rest

-- Whom a member's key is for is known from the member's record.
theorem InOrder.rekeys (inOrder : db.InOrder config) {room : RoomId} {epoch : UInt32}
    {given : AccountId → Option String} {members : List (ParticipantId × AccountId)}
    (rekeys : Rekeys room epoch given members db after) (housed : db.Stores room.place)
    (known : ∀ member ∈ members, db.Stores member.2.place)
    (formed : ∀ account key, given account = some key → key.isEmpty = false) : after.InOrder config := by
  induction rekeys with
  | nil => exact inOrder
  | cons keyed stored puts stores _ ih =>
    obtain ⟨first, rest⟩ := List.forall_mem_cons.mp known
    have formed := formed _ _ keyed
    have inOrder := inOrder.put puts (fun place member => (inOrder.referred _ _ _ stored place member).put puts)
      formed
    refine ih (inOrder.storesKey stores (housed.put puts) (first.put puts) formed)
      ((housed.put puts).put stores.puts) fun member listed => ?_
    exact ((rest member listed).put puts).put stores.puts

end Database

namespace Rule

theorem transfer_inOrder (sound : c.db.Sound) (inOrder : c.db.InOrder c.config) {p : Transfer}
    {plan : transfer.Plan} (examined : transfer.examine c p = .ok plan)
    (run : transfer.carryOut time plan p c.db = (.ok outcome, after)) : after.InOrder c.config := by
  obtain ⟨_, sender, rest⟩ := exists_of_bind_eq_ok examined
  obtain ⟨_, receiver, rest⟩ := exists_of_bind_eq_ok rest
  obtain ⟨_, asset, -⟩ := exists_of_bind_eq_ok rest
  obtain ⟨n, m, b, b', mid, puts, owner, of, puts', owner', of'⟩ := transfer_steps sound run
  have paid := inOrder.put puts (List.forall_mem_cons.mpr ⟨by rw [owner]; exact (Context.get_stores sender).put puts,
    List.forall_mem_singleton.mpr (by rw [of]; exact (Context.get_stores asset).put puts)⟩) trivial
  refine paid.put puts' (List.forall_mem_cons.mpr ⟨?_, List.forall_mem_singleton.mpr ?_⟩) trivial
  · rw [owner']
    exact ((Context.get_stores receiver).put puts).put puts'
  · rw [of']
    exact ((Context.get_stores asset).put puts).put puts'

theorem createAccount_inOrder (sound : c.db.Sound) (inOrder : c.db.InOrder c.config) {p : CreateAccount}
    {plan : createAccount.Plan} (validated : (Operation.createAccount p).validate = .ok ())
    (examined : createAccount.examine c p = .ok plan)
    (run : createAccount.carryOut time plan p c.db = (.ok outcome, after)) : after.InOrder c.config := by
  obtain ⟨_, registrar, -⟩ := exists_of_bind_eq_ok examined
  obtain ⟨n, -, puts⟩ := createAccount_steps sound run
  exact inOrder.put puts (List.forall_mem_singleton.mpr ((Context.get_stores registrar).put puts))
    (Operation.validate_createAccount validated)

theorem createRoom_inOrder (sound : c.db.Sound) (inOrder : c.db.InOrder c.config) {p : CreateRoom}
    {plan : createRoom.Plan} (validated : (Operation.createRoom p).validate = .ok ())
    (examined : createRoom.examine c p = .ok plan)
    (run : createRoom.carryOut time plan p c.db = (.ok outcome, after)) : after.InOrder c.config := by
  obtain ⟨_, owner, named⟩ := exists_of_bind_eq_ok examined
  obtain ⟨some, short, keyed⟩ := Operation.validate_createRoom validated
  obtain ⟨n, m, l, one, two, -, first, -, second, third⟩ := createRoom_steps sound run
  have owner := (Context.get_stores owner).put first
  have inOrder := inOrder.put first (List.forall_mem_singleton.mpr owner)
    ⟨some, Nat.le_min.mpr ⟨short, Context.checkRoomName_short named⟩, keyed⟩
  have inOrder := inOrder.put second (List.forall_mem_cons.mpr ⟨first.stores.put second,
    List.forall_mem_singleton.mpr (owner.put second)⟩) keyed
  exact inOrder.storesKey third (first.stores.put second) (owner.put second) keyed

theorem updateRoom_inOrder (sound : c.db.Sound) (inOrder : c.db.InOrder c.config) {p : UpdateRoom}
    {plan : updateRoom.Plan} (validated : (Operation.updateRoom p).validate = .ok ())
    (examined : updateRoom.examine c p = .ok plan)
    (run : updateRoom.carryOut time plan p c.db = (.ok outcome, after)) : after.InOrder c.config := by
  obtain ⟨room, owned, named⟩ := exists_of_bind_eq_ok examined
  obtain ⟨stored, -⟩ := Context.ownedRoom_eq_ok owned
  obtain ⟨some, short⟩ := Operation.validate_updateRoom validated
  obtain ⟨row, same, puts⟩ := updateRoom_steps sound run
  rw [stored] at same
  cases same
  obtain ⟨-, fits, keyed⟩ := inOrder.formed _ _ _ stored
  refine inOrder.put puts (fun place member => (inOrder.referred _ _ _ stored place member).put puts)
    ⟨some, ?_, keyed⟩
  split at named
  · exact Nat.le_min.mpr ⟨short, Context.checkRoomName_short named⟩
  · rename_i kept
    rw [Decidable.not_not] at kept
    rwa [← kept]

theorem addParticipant_inOrder (sound : c.db.Sound) (inOrder : c.db.InOrder c.config) {p : AddParticipant}
    {epoch : addParticipant.Plan} (validated : (Operation.addParticipant p).validate = .ok ())
    (examined : addParticipant.examine c p = .ok epoch)
    (run : addParticipant.carryOut time epoch p c.db = (.ok outcome, after)) : after.InOrder c.config := by
  obtain ⟨room, owned, rest⟩ := exists_of_bind_eq_ok examined
  obtain ⟨_, account, -⟩ := exists_of_bind_eq_ok rest
  obtain ⟨keyed, past⟩ := Operation.validate_addParticipant validated
  obtain ⟨m, l, one, two, -, first, second, third⟩ := addParticipant_steps sound run
  have room : c.db.Stores p.room.place := ⟨room, (Context.ownedRoom_eq_ok owned).1⟩
  have room := room.put first
  have account := (Context.get_stores account).put first
  have inOrder := inOrder.put first
    (List.forall_mem_cons.mpr ⟨room, List.forall_mem_singleton.mpr account⟩) keyed
  have inOrder := inOrder.storesKey second room account keyed
  exact inOrder.storesKeys third (room.put second.puts) (account.put second.puts) past

theorem removeParticipant_inOrder (sound : c.db.Sound) (inOrder : c.db.InOrder c.config)
    {p : RemoveParticipant} {plan : removeParticipant.Plan}
    (run : removeParticipant.carryOut time plan p c.db = (.ok outcome, after)) : after.InOrder c.config := by
  obtain ⟨-, puts⟩ := removeParticipant_steps sound run
  exact inOrder.removes_unreferred puts.removes (by decide)

theorem rotateKey_inOrder (sound : c.db.Sound) (inOrder : c.db.InOrder c.config) {p : RotateKey}
    {plan : Rotation} (validated : (Operation.rotateKey p).validate = .ok ())
    (examined : rotateKey.examine c p = .ok plan)
    (run : rotateKey.carryOut time plan p c.db = (.ok outcome, after)) : after.InOrder c.config := by
  obtain ⟨keyed, given⟩ := Operation.validate_rotateKey validated
  obtain ⟨room, one, stored, puts, rekeys⟩ := rotateKey_steps sound run
  obtain ⟨some, fits, -⟩ := inOrder.formed _ _ _ stored
  have inOrder' := inOrder.put puts (fun place member => (inOrder.referred _ _ _ stored place member).put puts)
    ⟨some, fits, keyed⟩
  refine inOrder'.rekeys rekeys puts.stores (fun member listed => ?_) given
  obtain ⟨-, -, -, members, -⟩ := rotateKey_planned examined
  rw [members] at listed
  obtain ⟨row, present, rfl⟩ := List.mem_map.mp listed
  obtain ⟨stored, -⟩ := (mem_participantsOf sound).mp present
  exact (inOrder.referred _ _ _ stored _ (by simp [Kind.references])).put puts

theorem deleteRoom_inOrder (sound : c.db.Sound) (inOrder : c.db.InOrder c.config) {p : DeleteRoom}
    {plan : Belongings} (examined : deleteRoom.examine c p = .ok plan)
    (run : deleteRoom.carryOut time plan p c.db = (.ok outcome, after)) : after.InOrder c.config := by
  obtain ⟨one, two, first, second, puts⟩ := deleteRoom_steps sound run
  have vacates := deleteRoom_vacates sound examined run
  have left := (inOrder.removes_unreferred first (by decide)).removes_unreferred second (by decide)
  refine left.removes puts.removes fun id same j m other stored member => ?_
  obtain rfl := List.mem_singleton.mp same
  cases j with
  | participant =>
    obtain ⟨-, elsewhere⟩ := (vacates.participants m other).mp stored
    exact elsewhere (by simpa [Kind.references, RecordId.place_inj, RecordId.place_ne, eq_comm] using member)
  | epochKey =>
    obtain ⟨-, elsewhere⟩ := (vacates.keys m other).mp stored
    exact elsewhere (by simpa [Kind.references, RecordId.place_inj, RecordId.place_ne, eq_comm] using member)
  | _ => simp [Kind.references, RecordId.place_ne] at member

theorem createSport_inOrder (sound : c.db.Sound) (inOrder : c.db.InOrder c.config) {p : CreateSport}
    {plan : createSport.Plan} (validated : (Operation.createSport p).validate = .ok ())
    (run : createSport.carryOut time plan p c.db = (.ok outcome, after)) : after.InOrder c.config := by
  obtain ⟨n, puts⟩ := createSport_steps sound run
  exact inOrder.put puts (fun _ none => nomatch none) (Operation.validate_createSport validated)

theorem updateSport_inOrder (sound : c.db.Sound) (inOrder : c.db.InOrder c.config) {p : UpdateSport}
    {plan : updateSport.Plan} (validated : (Operation.updateSport p).validate = .ok ())
    (run : updateSport.carryOut time plan p c.db = (.ok outcome, after)) : after.InOrder c.config := by
  rcases updateSport_steps sound run with rfl | ⟨sport, name, given, puts⟩
  · exact inOrder
  · exact inOrder.put puts (fun _ none => nomatch none) (Operation.validate_updateSport validated given)

theorem deleteSport_inOrder (sound : c.db.Sound) (inOrder : c.db.InOrder c.config) {p : DeleteSport}
    {groups : List EventGroupId} (examined : deleteSport.examine c p = .ok groups)
    (run : deleteSport.carryOut time groups p c.db = (.ok outcome, after)) : after.InOrder c.config := by
  obtain ⟨mid, removes, puts⟩ := deleteSport_steps sound run
  have left := inOrder.removes_unreferred removes (by decide)
  refine left.removes puts.removes fun id same j m other stored member => ?_
  obtain rfl := List.mem_singleton.mp same
  cases j with
  | eventGroup =>
    rw [puts.row?_other (by simp), removes.row?_eq_some_iff _ (deleteSport_removes sound examined)] at stored
    exact stored.2 (by simpa [Kind.references, RecordId.place_inj, eq_comm] using member)
  | _ => simp [Kind.references, RecordId.place_ne] at member

theorem createEventGroup_inOrder (sound : c.db.Sound) (inOrder : c.db.InOrder c.config)
    {p : CreateEventGroup} {sport : SportId} (validated : (Operation.createEventGroup p).validate = .ok ())
    (examined : createEventGroup.examine c p = .ok sport)
    (run : createEventGroup.carryOut time sport p c.db = (.ok outcome, after)) : after.InOrder c.config := by
  obtain ⟨row, found, planned⟩ := exists_of_bind_eq_ok examined
  cases planned
  have sport : c.db.Stores row.id.place := ⟨row, Context.resolveRecord_stores sound found⟩
  obtain ⟨n, puts⟩ := createEventGroup_steps sound run
  exact inOrder.put puts (List.forall_mem_singleton.mpr (sport.put puts))
    (Operation.validate_createEventGroup validated)

theorem updateEventGroup_inOrder (sound : c.db.Sound) (inOrder : c.db.InOrder c.config)
    {p : UpdateEventGroup} {sport : Option SportId}
    (validated : (Operation.updateEventGroup p).validate = .ok ())
    (examined : updateEventGroup.examine c p = .ok sport)
    (run : updateEventGroup.carryOut time sport p c.db = (.ok outcome, after)) : after.InOrder c.config := by
  obtain ⟨_, -, planned⟩ := exists_of_bind_eq_ok examined
  obtain ⟨group, stored, puts⟩ := updateEventGroup_steps sound run
  refine inOrder.put puts (List.forall_mem_singleton.mpr ?_) ?_
  · cases moved : p.newSport with
    | none =>
      rw [moved] at planned
      cases planned
      exact (inOrder.referred _ _ _ stored _ (List.mem_singleton.mpr rfl)).put puts
    | some id =>
      rw [moved] at planned
      obtain ⟨meant, resolved, planned⟩ := exists_of_bind_eq_ok planned
      obtain ⟨row, found, same⟩ := exists_of_bind_eq_ok resolved
      cases planned
      cases same
      exact Stores.put ⟨row, Context.resolveRecord_stores sound found⟩ puts
  · have formed : group.name.isWellFormed = true := inOrder.formed _ _ _ stored
    cases named : p.newName with
    | none => exact formed
    | some name => exact Operation.validate_updateEventGroup validated named

theorem deleteEventGroup_inOrder (sound : c.db.Sound) (inOrder : c.db.InOrder c.config)
    {p : DeleteEventGroup} {plan : deleteEventGroup.Plan}
    (run : deleteEventGroup.carryOut time plan p c.db = (.ok outcome, after)) : after.InOrder c.config :=
  inOrder.removes_unreferred (deleteEventGroup_steps sound run).removes (by decide)

end Rule

namespace Operation

-- What is examined is referred to, what is validated is well formed, and what is deleted takes
-- along all that refers to it.
theorem carryOut_inOrder (sound : c.db.Sound) (inOrder : c.db.InOrder c.config) {op : Operation}
    (validated : op.validate = .ok ()) {plan : op.Plan} (examined : op.examine c = .ok plan)
    (run : op.carryOut time plan c.db = (.ok outcome, after)) : after.InOrder c.config := by
  cases op with
  | transfer p => exact Rule.transfer_inOrder sound inOrder examined run
  | createAccount p => exact Rule.createAccount_inOrder sound inOrder validated examined run
  | createRoom p => exact Rule.createRoom_inOrder sound inOrder validated examined run
  | updateRoom p => exact Rule.updateRoom_inOrder sound inOrder validated examined run
  | addParticipant p => exact Rule.addParticipant_inOrder sound inOrder validated examined run
  | removeParticipant p => exact Rule.removeParticipant_inOrder sound inOrder run
  | rotateKey p => exact Rule.rotateKey_inOrder sound inOrder validated examined run
  | deleteRoom p => exact Rule.deleteRoom_inOrder sound inOrder examined run
  | createSport p => exact Rule.createSport_inOrder sound inOrder validated run
  | updateSport p => exact Rule.updateSport_inOrder sound inOrder validated run
  | deleteSport p => exact Rule.deleteSport_inOrder sound inOrder examined run
  | createEventGroup p => exact Rule.createEventGroup_inOrder sound inOrder validated examined run
  | updateEventGroup p => exact Rule.updateEventGroup_inOrder sound inOrder validated examined run
  | deleteEventGroup p => exact Rule.deleteEventGroup_inOrder sound inOrder run

theorem charge_inOrder {config : Config} (sound : db.Sound) (inOrder : db.InOrder config) {name : String}
    {payer : AccountId} {fee : Shares} (known : db.Stores payer.place) (core : db.Stores coreAsset.place)
    (run : charge name payer fee db = (.ok (), after)) : after.InOrder config := by
  rcases charge_steps sound run with rfl | ⟨n, m, b, s, mid, puts, rfl, of, puts'⟩
  · exact inOrder
  · have paid := inOrder.put puts (List.forall_mem_cons.mpr ⟨known.put puts,
      List.forall_mem_singleton.mpr (by rw [of]; exact core.put puts)⟩) trivial
    exact paid.put puts' (fun _ none => nomatch none) trivial

theorem approve_stores {op : Operation} {approval : op.Approval} (approved : op.approve c = .ok approval) :
    c.db.Stores op.payer.place := by
  unfold approve at approved
  dsimp only at approved
  split at approved
  · cases approved
  split at approved
  · cases approved
  obtain ⟨payer, got, -⟩ := exists_of_bind_eq_ok approved
  exact Context.get_stores got

theorem Performed.inOrder {op : Operation} (performed : op.Performed c outcome after) (sound : c.db.Sound)
    (inOrder : c.db.InOrder c.config) (core : c.db.Stores coreAsset.place) : after.InOrder c.config := by
  obtain ⟨approval, mid, approved, carried, charged⟩ := performed.carried
  obtain ⟨payer, examined, -⟩ := approve_eq_ok sound approved
  obtain ⟨account, known⟩ := approve_stores approved
  obtain ⟨asset, core⟩ := core
  rw [payer] at charged
  exact charge_inOrder (carryOut_sound sound carried)
    (carryOut_inOrder sound inOrder performed.validated examined carried)
    ⟨account, carryOut_keeps (k := .account) sound carried (by decide) known⟩
    ⟨asset, carryOut_keeps (k := .asset) sound carried (by decide) core⟩ charged

end Operation

end RoomLedger
