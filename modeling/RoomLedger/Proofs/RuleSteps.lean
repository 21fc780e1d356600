import RoomLedger.Proofs.WriteSteps
import RoomLedger.Proofs.Settlement

namespace RoomLedger

open Database Change

variable {c : Context} {db after : Database} {time : Timestamp} {outcome : Outcome}

namespace Rule

theorem addParticipant_planned {p : AddParticipant} {epoch : UInt32}
    (examined : addParticipant.examine c p = .ok epoch) :
    ∃ room : Room, c.db.row? .room p.room.number = some room ∧ room.owner = p.owner ∧ room.epoch = epoch ∧
      (∃ account, c.db.row? .account p.participant.number = some account) ∧
      c.db.participantIn? p.room p.participant = none ∧
      (c.db.participantsOf p.room).length < c.config.maxParticipants.toNat ∧
      ∀ past ∈ p.epochKeys.entries, past.1 < epoch := by
  obtain ⟨room, owned, rest⟩ := exists_of_bind_eq_ok examined
  obtain ⟨stored, owner⟩ := Context.ownedRoom_eq_ok owned
  obtain ⟨account, got, rest⟩ := exists_of_bind_eq_ok rest
  dsimp only at rest
  split at rest
  · cases rest
  rename_i free
  split at rest
  · cases rest
  rename_i space
  split at rest
  · cases rest
  rename_i past
  cases rest
  refine ⟨room, stored, owner, rfl, ⟨account, Context.get_eq_ok got⟩, by simpa using free, by omega, ?_⟩
  intro entry member
  have early := List.find?_eq_none.mp past entry.1 (List.mem_map_of_mem member)
  rw [decide_eq_true_eq] at early
  exact UInt32.not_le.mp early

theorem removeParticipant_planned {p : RemoveParticipant} {plan : removeParticipant.Plan}
    (examined : removeParticipant.examine c p = .ok plan) :
    ∃ (member : Participant) (room : Room), c.db.row? .participant p.membership.number = some member ∧
      c.db.row? .room member.room.number = some room ∧ room.owner = p.owner ∧ member.account ≠ room.owner := by
  obtain ⟨member, got, rest⟩ := exists_of_bind_eq_ok examined
  obtain ⟨room, owned, rest⟩ := exists_of_bind_eq_ok rest
  obtain ⟨stored, owner⟩ := Context.ownedRoom_eq_ok owned
  split at rest
  · cases rest
  · rename_i other
    exact ⟨member, room, Context.get_eq_ok got, stored, owner, other⟩

theorem rotateKey_planned {p : RotateKey} {plan : Rotation} (examined : rotateKey.examine c p = .ok plan) :
    ∃ room : Room, (c.db.row? .room p.room.number = some room ∧ room.owner = p.owner) ∧
      (plan.epoch = room.epoch + 1 ∧ room.epoch ≠ 0xffffffff) ∧
      plan.members = (c.db.participantsOf p.room).map (fun m => (m.id, m.account)) ∧
      p.participantKeys.get? p.owner = some p.newRoomKey := by
  obtain ⟨room, owned, rest⟩ := exists_of_bind_eq_ok examined
  have found := Context.ownedRoom_eq_ok owned
  dsimp only at rest
  split at rest
  · cases rest
  split at rest
  · cases rest
  rename_i same
  split at rest
  · cases rest
  rename_i spare
  cases rest
  exact ⟨room, found, ⟨rfl, spare⟩, rfl, Decidable.not_not.mp same⟩

theorem deleteRoom_planned {p : DeleteRoom} {plan : Belongings}
    (examined : deleteRoom.examine c p = .ok plan) :
    (∃ room : Room, c.db.row? .room p.room.number = some room ∧ room.owner = p.owner) ∧
      plan.participants = (c.db.participantsOf p.room).map Participant.id ∧
      plan.epochKeys = (c.db.keysOf p.room).map EpochKey.id := by
  obtain ⟨room, owned, rest⟩ := exists_of_bind_eq_ok examined
  cases rest
  exact ⟨⟨room, Context.ownedRoom_eq_ok owned⟩, rfl, rfl⟩

end Rule

namespace Rule

theorem transfer_steps (sound : db.Sound) {p : Transfer} {plan : transfer.Plan}
    (run : transfer.carryOut time plan p db = (.ok outcome, after)) :
    ∃ (n m : Nat) (b c : Balance) (mid : Database), db.Puts .balance n (some b) mid ∧ b.owner = p.sender ∧
      b.asset = p.amount.asset ∧ mid.Puts .balance m (some c) after ∧ c.owner = p.receiver ∧
      c.asset = p.amount.asset := by
  obtain ⟨_, mid, first, run⟩ := bind_eq_ok run
  obtain ⟨_, last, second, left⟩ := bind_eq_ok run
  cases left
  obtain ⟨n, b, puts, owner, asset⟩ := Write.adjust_eq_ok sound first
  obtain ⟨m, c, puts', owner', asset'⟩ := Write.adjust_eq_ok (puts.continues.sound sound) second
  exact ⟨n, m, b, c, mid, puts, owner, asset, puts', owner', asset'⟩

theorem createAccount_steps (sound : db.Sound) {p : CreateAccount} {plan : createAccount.Plan}
    (run : createAccount.carryOut time plan p db = (.ok outcome, after)) :
    ∃ n, db.row? .account n = none ∧ db.Puts .account n (some ⟨⟨n⟩, p.name, p.registrar⟩) after := by
  obtain ⟨account, mid, created, left⟩ := bind_eq_ok run
  cases left
  obtain ⟨rfl, fresh, puts⟩ := Write.create_eq_ok sound created
  exact ⟨_, fresh, puts⟩

theorem createRoom_steps (sound : db.Sound) {p : CreateRoom} {plan : createRoom.Plan}
    (run : createRoom.carryOut time plan p db = (.ok outcome, after)) :
    ∃ (n m l : Nat) (one two : Database), n = db.next .room ∧
      db.Puts .room n (some ⟨⟨n⟩, p.owner, p.name, p.roomKey, time, 0⟩) one ∧
      one.row? .participant m = none ∧
      one.Puts .participant m (some ⟨⟨m⟩, ⟨n⟩, p.owner, p.roomKey, time⟩) two ∧
      two.StoresKey ⟨n⟩ 0 p.owner p.roomKey l after := by
  obtain ⟨room, one, first, run⟩ := bind_eq_ok run
  obtain ⟨rfl, -, puts⟩ := Write.create_eq_ok sound first
  have sound := puts.continues.sound sound
  obtain ⟨member, two, second, run⟩ := bind_eq_ok run
  obtain ⟨rfl, fresh, puts'⟩ := Write.create_eq_ok sound second
  obtain ⟨_, last, third, left⟩ := bind_eq_ok run
  cases left
  obtain ⟨l, stores⟩ := Write.epochKey_eq_ok (puts'.continues.sound sound) third
  exact ⟨_, _, l, one, two, rfl, puts, fresh, puts', stores⟩

theorem updateRoom_steps (sound : db.Sound) {p : UpdateRoom} {plan : updateRoom.Plan}
    (run : updateRoom.carryOut time plan p db = (.ok outcome, after)) :
    ∃ room : Room, db.row? .room p.room.number = some room ∧
      db.Puts .room p.room.number (some { room with name := p.name }) after := by
  obtain ⟨_, mid, modified, left⟩ := bind_eq_ok run
  cases left
  exact Write.modify_eq_ok sound modified (fun _ => rfl)

theorem addParticipant_steps (sound : db.Sound) {p : AddParticipant} {epoch : addParticipant.Plan}
    (run : addParticipant.carryOut time epoch p db = (.ok outcome, after)) :
    ∃ (m l : Nat) (one two : Database), db.row? .participant m = none ∧
      db.Puts .participant m (some ⟨⟨m⟩, p.room, p.participant, p.contentKey, time⟩) one ∧
      one.StoresKey p.room epoch p.participant p.contentKey l two ∧
      StoresKeys p.room p.participant p.epochKeys.entries two after := by
  obtain ⟨participant, one, first, run⟩ := bind_eq_ok run
  obtain ⟨rfl, fresh, puts⟩ := Write.create_eq_ok sound first
  have sound := puts.continues.sound sound
  obtain ⟨_, two, second, run⟩ := bind_eq_ok run
  obtain ⟨l, stores⟩ := Write.epochKey_eq_ok sound second
  obtain ⟨_, last, third, left⟩ := bind_eq_ok run
  cases left
  exact ⟨_, l, one, two, fresh, puts, stores,
    Write.epochKeys_eq_ok (stores.puts.continues.sound sound) third⟩

theorem removeParticipant_steps (sound : db.Sound) {p : RemoveParticipant} {plan : removeParticipant.Plan}
    (run : removeParticipant.carryOut time plan p db = (.ok outcome, after)) :
    (∃ row, db.row? .participant p.membership.number = some row) ∧
      db.Puts .participant p.membership.number none after := by
  obtain ⟨_, mid, removed, left⟩ := bind_eq_ok run
  cases left
  exact Write.remove_eq_ok sound removed

theorem rotateKey_steps (sound : db.Sound) {p : RotateKey} {plan : Rotation}
    (run : rotateKey.carryOut time plan p db = (.ok outcome, after)) :
    ∃ (room : Room) (one : Database), db.row? .room p.room.number = some room ∧
      db.Puts .room p.room.number (some { room with roomKey := p.newRoomKey, epoch := plan.epoch }) one ∧
      Rekeys p.room plan.epoch p.participantKeys.get? plan.members one after := by
  obtain ⟨_, one, modified, run⟩ := bind_eq_ok run
  obtain ⟨room, stored, puts⟩ := Write.modify_eq_ok sound modified (fun _ => rfl)
  obtain ⟨_, last, rekeyed, left⟩ := bind_eq_ok run
  cases left
  refine ⟨room, one, stored, puts, ?_⟩
  refine mapM_eq_ok (fun members _ db after => Rekeys p.room plan.epoch p.participantKeys.get? members db after)
    (fun _ _ => .nil) ?_ (puts.continues.sound sound) rekeyed
  rintro ⟨id, account⟩ record rest _ db mid after sound first later
  dsimp only at first
  cases known : p.participantKeys.get? account with
  | none => rw [known] at first; cases first
  | some key =>
    rw [known] at first
    obtain ⟨_, one, modified, stored⟩ := bind_eq_ok first
    obtain ⟨row, there, puts⟩ := Write.modify_eq_ok sound modified (fun _ => rfl)
    obtain ⟨n, stores⟩ := Write.epochKey_eq_ok (puts.continues.sound sound) stored
    exact .cons known there puts stores
      (later (stores.puts.continues.sound (puts.continues.sound sound)))

theorem deleteRoom_steps (sound : db.Sound) {p : DeleteRoom} {plan : Belongings}
    (run : deleteRoom.carryOut time plan p db = (.ok outcome, after)) :
    ∃ one two : Database, db.Removes plan.epochKeys one ∧ one.Removes plan.participants two ∧
      two.Puts .room p.room.number none after := by
  obtain ⟨_, one, first, run⟩ := bind_eq_ok run
  have keys := Write.removeAll_eq_ok sound first
  have sound := keys.continues.sound sound
  obtain ⟨_, two, second, run⟩ := bind_eq_ok run
  have participants := Write.removeAll_eq_ok sound second
  obtain ⟨_, last, third, left⟩ := bind_eq_ok run
  cases left
  exact ⟨one, two, keys, participants,
    (Write.remove_eq_ok (participants.continues.sound sound) third).2⟩

structure Vacates (db : Database) (room : RoomId) (after : Database) : Prop where
  continues : db.Continues after
  rooms : ∀ m, after.row? .room m = if m = room.number then none else db.row? .room m
  participants : ∀ m (p : Participant), after.row? .participant m = some p ↔
    db.row? .participant m = some p ∧ p.room ≠ room
  keys : ∀ m (e : EpochKey), after.row? .epochKey m = some e ↔ db.row? .epochKey m = some e ∧ e.room ≠ room

theorem deleteRoom_vacates (sound : c.db.Sound) {p : DeleteRoom} {plan : Belongings}
    (examined : deleteRoom.examine c p = .ok plan)
    (run : deleteRoom.carryOut time plan p c.db = (.ok outcome, after)) : Vacates c.db p.room after := by
  obtain ⟨-, participants, keys⟩ := deleteRoom_planned examined
  obtain ⟨one, two, first, second, puts⟩ := deleteRoom_steps sound run
  refine ⟨(first.continues.trans second.continues).trans puts.continues, fun m => ?_, fun m member => ?_,
    fun m key => ?_⟩
  · rw [puts.rows, second.row?_other (by simp), first.row?_other (by simp)]
  · rw [puts.row?_other (by simp), second.row?_eq_some_iff (fun q => q.room = p.room),
      first.row?_other (by simp)]
    intro m q stored
    rw [first.row?_other (by simp)] at stored
    rw [participants, List.map_map]
    exact mem_numbers_iff sound (fun q => mem_participantsOf sound) stored
  · rw [puts.row?_other (by simp), second.row?_other (by simp),
      first.row?_eq_some_iff (fun e => e.room = p.room)]
    intro m e stored
    rw [keys, List.map_map]
    exact mem_numbers_iff sound (fun e => mem_keysOf sound) stored

theorem createSport_steps (sound : db.Sound) {p : CreateSport} {plan : createSport.Plan}
    (run : createSport.carryOut time plan p db = (.ok outcome, after)) :
    ∃ n, db.Puts .sport n (some ⟨⟨n⟩, p.name⟩) after := by
  obtain ⟨sport, mid, created, left⟩ := bind_eq_ok run
  cases left
  obtain ⟨rfl, -, puts⟩ := Write.create_eq_ok sound created
  exact ⟨_, puts⟩

theorem updateSport_steps (sound : db.Sound) {p : UpdateSport} {plan : updateSport.Plan}
    (run : updateSport.carryOut time plan p db = (.ok outcome, after)) :
    after = db ∨ ∃ (sport : Sport) (name : LocalizedName), p.newName = some name ∧
      db.Puts .sport p.sport.number (some { sport with name := name }) after := by
  obtain ⟨_, mid, renamed, left⟩ := bind_eq_ok run
  cases left
  cases given : p.newName with
  | none =>
    rw [given] at renamed
    cases renamed
    exact .inl rfl
  | some name =>
    rw [given] at renamed
    obtain ⟨sport, -, puts⟩ := Write.modify_eq_ok sound renamed (fun _ => rfl)
    exact .inr ⟨sport, name, rfl, puts⟩

theorem deleteSport_steps (sound : db.Sound) {p : DeleteSport} {groups : List EventGroupId}
    (run : deleteSport.carryOut time groups p db = (.ok outcome, after)) :
    ∃ mid, db.Removes groups mid ∧ mid.Puts .sport p.sport.number none after := by
  obtain ⟨_, mid, first, run⟩ := bind_eq_ok run
  have removes := Write.removeAll_eq_ok sound first
  obtain ⟨_, last, second, left⟩ := bind_eq_ok run
  cases left
  exact ⟨mid, removes, (Write.remove_eq_ok (removes.continues.sound sound) second).2⟩

theorem deleteSport_planned (sound : c.db.Sound) {p : DeleteSport} {groups : List EventGroupId}
    (examined : deleteSport.examine c p = .ok groups) :
    (∃ sport : Sport, c.db.row? .sport p.sport.number = some sport) ∧
      ∃ filed : List EventGroup, groups = filed.map EventGroup.id ∧
        ∀ g, g ∈ filed ↔ c.db.row? .eventGroup g.id.number = some g ∧ g.sport = p.sport := by
  obtain ⟨sport, got, rest⟩ := exists_of_bind_eq_ok examined
  obtain ⟨filed, listed, planned⟩ := exists_of_bind_eq_ok rest
  cases planned
  refine ⟨⟨sport, Context.get_eq_ok got⟩, filed, rfl, fun g => ?_⟩
  have member := (listed_startingWith_spec sound Table.eventGroup_by_sport [p.sport.part]).2 g
  rw [of_mapError_eq_ok listed] at member
  simp only [List.isPrefixOf_cons_cons, List.isPrefixOf_nil_left, Bool.and_true, beq_iff_eq,
    RecordId.part_inj] at member
  rw [eq_comm (a := g.sport)]
  exact member

theorem deleteSport_removes (sound : c.db.Sound) {p : DeleteSport} {groups : List EventGroupId}
    (examined : deleteSport.examine c p = .ok groups) (m : Nat) (g : EventGroup)
    (stored : c.db.row? .eventGroup m = some g) : m ∈ groups.map RecordId.number ↔ g.sport = p.sport := by
  obtain ⟨-, filed, rfl, member⟩ := deleteSport_planned sound examined
  rw [List.map_map]
  exact mem_numbers_iff sound member stored

theorem createEventGroup_steps (sound : db.Sound) {p : CreateEventGroup} {sport : SportId}
    (run : createEventGroup.carryOut time sport p db = (.ok outcome, after)) :
    ∃ n, db.Puts .eventGroup n (some ⟨⟨n⟩, p.name, sport⟩) after := by
  obtain ⟨group, mid, created, left⟩ := bind_eq_ok run
  cases left
  obtain ⟨rfl, -, puts⟩ := Write.create_eq_ok sound created
  exact ⟨_, puts⟩

theorem updateEventGroup_steps (sound : db.Sound) {p : UpdateEventGroup} {sport : Option SportId}
    (run : updateEventGroup.carryOut time sport p db = (.ok outcome, after)) :
    ∃ group : EventGroup, db.row? .eventGroup p.group.number = some group ∧
      db.Puts .eventGroup p.group.number
        (some { group with name := p.newName.getD group.name, sport := sport.getD group.sport }) after := by
  obtain ⟨_, mid, modified, left⟩ := bind_eq_ok run
  cases left
  exact Write.modify_eq_ok sound modified (fun _ => rfl)

theorem deleteEventGroup_steps (sound : db.Sound) {p : DeleteEventGroup} {plan : deleteEventGroup.Plan}
    (run : deleteEventGroup.carryOut time plan p db = (.ok outcome, after)) :
    db.Puts .eventGroup p.group.number none after := by
  obtain ⟨_, mid, removed, left⟩ := bind_eq_ok run
  cases left
  exact (Write.remove_eq_ok sound removed).2

end Rule

namespace Operation

theorem charge_steps (sound : db.Sound) {name : String} {payer : AccountId} {fee : Shares}
    (run : charge name payer fee db = (.ok (), after)) :
    after = db ∨ ∃ (n m : Nat) (b : Balance) (s : Supply) (mid : Database),
      db.Puts .balance n (some b) mid ∧ b.owner = payer ∧ b.asset = coreAsset ∧
      mid.Puts .supply m (some s) after := by
  unfold charge at run
  split at run
  · obtain ⟨_, mid, adjusted, run⟩ := bind_eq_ok run
    obtain ⟨n, b, puts, owner, asset⟩ := Write.adjust_eq_ok sound adjusted
    obtain ⟨core, same, got, run⟩ := bind_eq_ok run
    obtain ⟨-, rfl⟩ := Prod.mk.inj (adapt_eq_ok got)
    obtain ⟨s, -, puts'⟩ := Write.modify_eq_ok (puts.continues.sound sound) run (fun _ => rfl)
    exact .inr ⟨n, _, b, _, mid, puts, owner, asset, puts'⟩
  · cases run
    exact .inl rfl

-- An operation that succeeds has been examined, carried out and charged for.
structure Performed (op : Operation) (c : Context) (outcome : Outcome) (after : Database) : Prop where
  validated : op.validate = .ok ()
  fee : 0 ≤ c.fee.toInt
  carried : ∃ (approval : op.Approval) (mid : Database), op.approve c = .ok approval ∧
    op.carryOut c.time approval.plan c.db = (.ok outcome, mid) ∧
    charge op.name approval.payer c.fee mid = (.ok (), after)

theorem Performed.stages {op : Operation} (performed : op.Performed c outcome after) (sound : c.db.Sound) :
    ∃ (plan : op.Plan) (mid : Database), op.examine c = .ok plan ∧
      (0 < c.fee.toInt → c.fee.toInt ≤ (c.db.holding op.payer coreAsset).toInt) ∧
      op.carryOut c.time plan c.db = (.ok outcome, mid) ∧ charge op.name op.payer c.fee mid = (.ok (), after) := by
  obtain ⟨approval, mid, approved, carried, charged⟩ := performed.carried
  obtain ⟨payer, examined, enough⟩ := approve_eq_ok sound approved
  rw [payer] at charged
  exact ⟨approval.plan, mid, examined, enough, carried, charged⟩

theorem Performed.edited {op : Operation} (performed : op.Performed c outcome after) :
    Edited (op.kind.written ++ [.balance, .supply]) c.db after := by
  obtain ⟨approval, mid, -, carried, charged⟩ := performed.carried
  have first := (carryOut_edits op c.time approval.plan).edited carried
  have second := (charge_edits op.name approval.payer c.fee).edited charged
  exact (first.widen fun _ => List.mem_append_left _).trans (second.widen fun _ => List.mem_append_right _)

theorem Performed.sound {op : Operation} (performed : op.Performed c outcome after) (sound : c.db.Sound) :
    after.Sound := (performed.edited.continues sound).sound sound

theorem carryOut_sound (sound : db.Sound) {op : Operation} {plan : op.Plan}
    (run : op.carryOut time plan db = (.ok outcome, after)) : after.Sound :=
  (((carryOut_edits op time plan).edited run).continues sound).sound sound

theorem perform_eq_ok_iff {op : Operation} {config : Config} {results : List Outcome} :
    op.perform config time results db = (.ok outcome, after) ↔ op.validate = .ok () ∧
      ∃ (globals : Globals) (approval : op.Approval), db.get .globals (⟨0⟩ : GlobalsId).id = .ok globals ∧
        op.approve ⟨db, config, time, op.scheduledFee globals.parameters.fees, results⟩ = .ok approval ∧
        (op.settle time (op.scheduledFee globals.parameters.fees) (some approval)).adapt ChainError.breached db =
          (.ok outcome, after) := by
  unfold perform
  constructor
  · intro run
    cases validated : op.validate with
    | error defect => rw [validated] at run; cases run
    | ok _ =>
      cases found : db.get .globals (⟨0⟩ : GlobalsId).id with
      | error e => rw [validated, found] at run; cases run
      | ok globals =>
        rw [validated, found] at run
        dsimp only at run
        cases approved : op.approve ⟨db, config, time, op.scheduledFee globals.parameters.fees, results⟩ with
        | error refusal => rw [approved] at run; cases run
        | ok approval =>
          rw [approved] at run
          exact ⟨rfl, globals, approval, rfl, approved, run⟩
  · rintro ⟨validated, globals, approval, found, approved, run⟩
    rw [validated, found]
    dsimp only
    rw [approved]
    exact run

theorem perform_eq_ok {op : Operation} {config : Config} {results : List Outcome}
    (run : op.perform config time results db = (.ok outcome, after)) :
    ∃ fee, op.Performed ⟨db, config, time, fee, results⟩ outcome after := by
  obtain ⟨validated, globals, approval, -, approved, run⟩ := perform_eq_ok_iff.mp run
  obtain ⟨answer, mid, carried, run⟩ := bind_eq_ok (adapt_eq_ok run)
  obtain ⟨_, last, charged, left⟩ := bind_eq_ok run
  cases left
  exact ⟨_, validated, scheduledFee_nonneg op _, approval, mid, approved, carried, charged⟩

-- The kinds of the records that no operation takes away.
def lasting : List Kind := [.account, .asset, .globals, .head]

theorem lasting_not_mem_written {j : OperationKind} {k : Kind} (listed : k ∈ lasting) (other : j ≠ .createAccount) :
    k ∉ j.written := by
  cases j <;> first | exact absurd rfl other | (revert k; decide)

theorem carryOut_keeps (sound : db.Sound) {op : Operation} {plan : op.Plan}
    (run : op.carryOut time plan db = (.ok outcome, after)) {k : Kind} (listed : k ∈ lasting) {n : Nat}
    {row : k.Row} (stored : db.row? k n = some row) : after.row? k n = some row := by
  have edited := (carryOut_edits op time plan).edited run
  by_cases creates : op.kind = .createAccount
  · cases op with
    | createAccount p =>
      obtain ⟨m, fresh, puts⟩ := Rule.createAccount_steps sound run
      by_cases account : k = .account
      · subst account
        rw [puts.rows, if_neg]
        · exact stored
        · rintro rfl
          rw [fresh] at stored
          cases stored
      · rw [puts.row?_other account]
        exact stored
    | _ => cases creates
  · rw [row?_congr (edited.tables (lasting_not_mem_written listed creates))]
    exact stored

theorem charge_keeps {name : String} {payer : AccountId} {fee : Shares}
    (run : charge name payer fee db = (.ok (), after)) {k : Kind} (apart : k ∉ [Kind.balance, .supply])
    (n : Nat) : after.row? k n = db.row? k n :=
  row?_congr (((charge_edits name payer fee).edited run).tables apart) n

theorem Performed.keeps {op : Operation} (performed : op.Performed c outcome after) (sound : c.db.Sound) {k : Kind}
    (listed : k ∈ lasting) {n : Nat} {row : k.Row} (stored : c.db.row? k n = some row) :
    after.row? k n = some row := by
  obtain ⟨plan, mid, -, -, carried, charged⟩ := performed.stages sound
  have apart : ∀ j ∈ lasting, j ∉ [Kind.balance, .supply] := by decide
  rw [charge_keeps charged (apart k listed)]
  exact carryOut_keeps sound carried listed stored

end Operation

end RoomLedger
