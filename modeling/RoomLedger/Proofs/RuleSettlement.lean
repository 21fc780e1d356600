import RoomLedger.Proofs.GroundedWrites

namespace RoomLedger

variable {ε δ α β : Type} {db after : Database} {c : Context} {k : Kind}

theorem exists_of_bind_eq_ok {x : Except ε α} {f : α → Except ε β} {b : β} (ok : (x >>= f) = .ok b) :
    ∃ a, x = .ok a ∧ f a = .ok b := by
  cases x with
  | error e => cases ok
  | ok a => exact ⟨a, rfl, ok⟩

theorem of_mapError_eq_ok {f : ε → δ} {x : Except ε α} {a : α} (ok : x.mapError f = .ok a) : x = .ok a := by
  cases x with
  | error e => cases ok
  | ok b => cases ok; rfl

namespace Context

theorem get_eq_ok {id : RecordId k} {row : k.Row} (ok : c.get id = .ok row) :
    c.db.row? k id.number = some row := by
  obtain ⟨n, same, stored⟩ := Database.get_eq_ok (of_mapError_eq_ok ok)
  have number : id.number = n := congrArg ObjectId.number same
  rwa [number]

theorem ownedRoom_eq_ok {room : RoomId} {owner : AccountId} {row : Room}
    (ok : c.ownedRoom room owner = .ok row) :
    c.db.row? .room room.number = some row ∧ row.owner = owner := by
  obtain ⟨found, got, owned⟩ := exists_of_bind_eq_ok ok
  split at owned
  · rename_i same
    cases owned
    exact ⟨get_eq_ok got, same⟩
  · cases owned

theorem checkRoomName_eq_ok {owner : AccountId} {name : String} (ok : c.checkRoomName owner name = .ok ()) :
    c.db.roomNamed? owner name = none := by
  unfold checkRoomName at ok
  dsimp only at ok
  split at ok
  · cases ok
  · split at ok
    · cases ok
    · rename_i free
      simpa using free

end Context

namespace Rule

open Database Change

-- An examination that ends with a plan has looked at everything that could stand in the way of the
-- writes. Transfers are a matter of money and are left out here.
theorem createAccount_settles (grounded : c.db.Grounded) {p : CreateAccount} {plan : createAccount.Plan}
    (examined : createAccount.examine c p = .ok plan) (time : Timestamp) :
    (createAccount.carryOut time plan p).Ends c.db fun _ after => after.Grounded := by
  obtain ⟨_, -, rest⟩ := exists_of_bind_eq_ok examined
  split at rest
  · cases rest
  · rename_i free
    have free : c.db.accountNamed? p.name = none := by simpa using free
    refine (Write.create_ends grounded _ fun m other stored collides => ?_).bind ?_
    · rw [Table.collides_account] at collides
      exact accountNamed?_eq_none grounded.sound free stored collides.symm
    · intro row after given
      obtain ⟨-, puts, next⟩ := given
      exact pure_ends (grounded.puts puts (by omega) (by simp))

theorem createRoom_settles (grounded : c.db.Grounded) {p : CreateRoom} {plan : createRoom.Plan}
    (examined : createRoom.examine c p = .ok plan) (time : Timestamp) :
    (createRoom.carryOut time plan p).Ends c.db fun _ after => after.Grounded := by
  obtain ⟨_, -, named⟩ := exists_of_bind_eq_ok examined
  have free := Context.checkRoomName_eq_ok named
  refine (Write.create_ends grounded _ fun m other stored collides => ?_).bind ?_
  · rw [Table.collides_room] at collides
    exact roomNamed?_eq_none grounded.sound free stored ⟨collides.1.symm, collides.2.symm⟩
  · intro room mid given
    obtain ⟨made, puts, next⟩ := given
    have settled := grounded.puts puts (by omega) (by simp)
    have number : room.id.number = c.db.next .room := by rw [made]; rfl
    -- Nobody can be in the room yet.
    refine (Write.create_ends settled _ fun m other stored collides => ?_).bind ?_
    · rw [Table.collides_participant] at collides
      have same : room.id = other.room := collides.1
      rw [puts.row?_other (by simp)] at stored
      have housed := grounded.housed m other stored
      rw [← same] at housed
      omega
    · intro owner last given
      obtain ⟨made, puts', next'⟩ := given
      have settled := settled.puts_participant puts' fun p same => by
        cases same
        rw [made]
        change room.id.number < _
        omega
      exact (Write.epochKey_ends settled _ _ _ _ _).bind fun _ _ holds => pure_ends holds.1

theorem updateRoom_settles (grounded : c.db.Grounded) {p : UpdateRoom} {plan : updateRoom.Plan}
    (examined : updateRoom.examine c p = .ok plan) (time : Timestamp) :
    (updateRoom.carryOut time plan p).Ends c.db fun _ after => after.Grounded := by
  obtain ⟨room, owned, named⟩ := exists_of_bind_eq_ok examined
  obtain ⟨stored, owner⟩ := Context.ownedRoom_eq_ok owned
  refine (Write.modify_ends grounded.sound _ p.room stored fun m other beside collides => ?_).bind ?_
  · rw [Table.collides_room] at collides
    have owners : room.owner = other.owner := collides.1
    have names : p.name = other.name := collides.2
    split at named
    · have free := Context.checkRoomName_eq_ok named
      exact absurd ⟨owners.symm.trans owner, names.symm⟩ (roomNamed?_eq_none grounded.sound free beside)
    · rename_i same
      have kept : Table.Collides (α := Kind.room.Row) room other :=
        Table.collides_room.mpr ⟨owners, (Decidable.not_not.mp same).trans names⟩
      exact (grounded.sound.distinct stored beside kept).symm
  · intro _ after given
    obtain ⟨puts, next⟩ := given
    exact pure_ends (grounded.puts puts (Nat.le_of_eq next.symm) (by simp))

theorem epochKeys_settle (grounded : db.Grounded) (operation : String) (room : RoomId)
    (account : AccountId) (keys : List (UInt32 × String)) :
    (keys.forM fun past => do
      let _ ← Write.epochKey operation room past.1 account past.2
      : Change Breach Unit).Ends db fun _ after => after.Grounded :=
  forM_ends (fun _ => Grounded)
    (fun _ _ _ grounded =>
      (Write.epochKey_ends grounded _ _ _ _ _).bind fun _ _ holds => pure_ends holds.1) keys grounded

theorem addParticipant_settles (grounded : c.db.Grounded) {p : AddParticipant}
    {plan : addParticipant.Plan} (examined : addParticipant.examine c p = .ok plan) (time : Timestamp) :
    (addParticipant.carryOut time plan p).Ends c.db fun _ after => after.Grounded := by
  obtain ⟨room, owned, rest⟩ := exists_of_bind_eq_ok examined
  obtain ⟨stored, -⟩ := Context.ownedRoom_eq_ok owned
  obtain ⟨_, -, rest⟩ := exists_of_bind_eq_ok rest
  dsimp only at rest
  split at rest
  · cases rest
  · rename_i free
    have free : c.db.participantIn? p.room p.participant = none := by simpa using free
    refine (Write.create_ends grounded _ fun m other stored collides => ?_).bind ?_
    · rw [Table.collides_participant] at collides
      exact participantIn?_eq_none grounded.sound free stored ⟨collides.1.symm, collides.2.symm⟩
    · intro participant mid given
      obtain ⟨made, puts, -⟩ := given
      have settled := grounded.puts_participant puts fun row same => by
        cases same
        rw [made]
        exact grounded.sound.bounded stored
      apply (Write.epochKey_ends settled _ _ _ _ _).bind
      intro _ _ settled
      exact (epochKeys_settle settled.1 _ _ _ _).bind fun _ _ settled => pure_ends settled

theorem removeParticipant_settles (grounded : c.db.Grounded) {p : RemoveParticipant}
    {plan : removeParticipant.Plan} (examined : removeParticipant.examine c p = .ok plan)
    (time : Timestamp) :
    (removeParticipant.carryOut time plan p).Ends c.db fun _ after => after.Grounded := by
  obtain ⟨participant, got, -⟩ := exists_of_bind_eq_ok examined
  apply (Write.remove_ends grounded.sound _ p.membership (Context.get_eq_ok got)).bind
  intro _ after given
  obtain ⟨puts, next⟩ := given
  exact pure_ends (grounded.removed puts next)

theorem deleteRoom_settles (grounded : c.db.Grounded) {p : DeleteRoom} {plan : deleteRoom.Plan}
    (examined : deleteRoom.examine c p = .ok plan) (time : Timestamp) :
    (deleteRoom.carryOut time plan p).Ends c.db fun _ after => after.Grounded := by
  obtain ⟨room, owned, rest⟩ := exists_of_bind_eq_ok examined
  obtain ⟨stored, -⟩ := Context.ownedRoom_eq_ok owned
  cases rest
  have keys : ∀ id ∈ (c.db.keysOf p.room).map EpochKey.id, ∃ row, c.db.row? .epochKey id.number = some row := by
    intro id member
    obtain ⟨e, listed, rfl⟩ := List.mem_map.mp member
    exact ⟨e, ((mem_keysOf grounded.sound).mp listed).1⟩
  have participants : ∀ id ∈ (c.db.participantsOf p.room).map Participant.id,
      ∃ row, c.db.row? .participant id.number = some row := by
    intro id member
    obtain ⟨e, listed, rfl⟩ := List.mem_map.mp member
    exact ⟨e, ((mem_participantsOf grounded.sound).mp listed).1⟩
  refine (Write.removeAll_ends grounded _ _ ?_ keys).bind ?_
  · rw [List.map_map]
    exact nodup_keysOf grounded.sound p.room
  intro _ mid given
  obtain ⟨settled, same⟩ := given
  refine (Write.removeAll_ends settled _ _ ?_ fun id member => ?_).bind ?_
  · rw [List.map_map]
    exact nodup_participantsOf grounded.sound p.room
  · rw [row?_congr (same _ (by simp))]
    exact participants id member
  intro _ last given
  obtain ⟨settled, same'⟩ := given
  have remaining : last.row? .room p.room.number = some room := by
    rw [row?_congr (same' _ (by simp)), row?_congr (same _ (by simp)), stored]
  apply (Write.remove_ends settled.sound _ p.room remaining).bind
  intro _ after given
  obtain ⟨puts, next⟩ := given
  exact pure_ends (settled.removed puts next)

-- Every participant of a room that has been examined for a new key gets one.
theorem rotateKey_examined (sound : c.db.Sound) {p : RotateKey} {plan : Rotation}
    (examined : rotateKey.examine c p = .ok plan) :
    (∃ room, c.db.row? .room p.room.number = some room) ∧
      ∀ member ∈ plan.members, (∃ row, c.db.row? .participant member.1.number = some row) ∧
        ∃ key, p.participantKeys.get? member.2 = some key := by
  obtain ⟨room, owned, rest⟩ := exists_of_bind_eq_ok examined
  obtain ⟨stored, -⟩ := Context.ownedRoom_eq_ok owned
  refine ⟨⟨room, stored⟩, ?_⟩
  dsimp only at rest
  split at rest
  · cases rest
  rename_i matched
  split at rest
  · cases rest
  split at rest
  · cases rest
  cases rest
  intro member listed
  obtain ⟨row, present, rfl⟩ := List.mem_map.mp listed
  refine ⟨⟨row, ((mem_participantsOf sound).mp present).1⟩, ?_⟩
  refine (SortedMap.contains_iff ..).mp (Decidable.byContradiction fun lacks => matched ?_)
  have missing : row.account ∈ ((SortedSet.ofList
      (((c.db.participantsOf p.room).map fun m => (m.id, m.account)).map (·.2))).toList.filter
        fun account => !p.participantKeys.contains account) := by
    refine List.mem_filter.mpr ⟨?_, by simpa using lacks⟩
    rw [SortedSet.mem_toList_iff, SortedSet.contains_ofList, decide_eq_true_eq, List.map_map]
    exact List.mem_map.mpr ⟨row, present, rfl⟩
  rw [Bool.or_eq_true]
  refine .inl ?_
  rw [Bool.not_eq_true', List.isEmpty_eq_false_iff]
  exact List.ne_nil_of_mem missing

theorem rotateKey_settles (grounded : c.db.Grounded) {p : RotateKey} {plan : rotateKey.Plan}
    (examined : rotateKey.examine c p = .ok plan) (time : Timestamp) :
    (rotateKey.carryOut time plan p).Ends c.db fun _ after => after.Grounded := by
  obtain ⟨⟨room, stored⟩, members⟩ := rotateKey_examined grounded.sound examined
  refine (Write.modify_ends grounded.sound _ p.room stored
    (free_of_kept_keys grounded.sound stored fun other collides => ?_)).bind ?_
  · rw [Table.collides_room] at collides ⊢
    exact collides
  intro _ mid given
  obtain ⟨puts, next⟩ := given
  let invariant (rest : List (ParticipantId × AccountId)) (now : Database) : Prop :=
    now.Grounded ∧ ∀ member ∈ rest, (∃ row, now.row? .participant member.1.number = some row) ∧
      ∃ key, p.participantKeys.get? member.2 = some key
  refine (mapM_ends invariant ?_ plan.members ⟨?_, ?_⟩).bind fun _ _ holds => pure_ends holds.1
  · rintro ⟨id, account⟩ rest now ⟨grounded, members⟩
    obtain ⟨⟨row, held⟩, key, known⟩ := members (id, account) (List.mem_cons_self ..)
    simp only [known]
    refine (Write.modify_ends grounded.sound _ id held
      (free_of_kept_keys grounded.sound held fun other collides => ?_)).bind ?_
    · rw [Table.collides_participant] at collides ⊢
      exact collides
    intro _ later given
    obtain ⟨puts, -⟩ := given
    have settled := grounded.puts_participant puts fun changed same => by
      cases same
      exact grounded.housed _ row held
    refine (Write.epochKey_ends settled _ _ _ _ _).weaken fun _ last ⟨settled, same⟩ => ⟨settled, ?_⟩
    intro member listed
    obtain ⟨⟨row, held⟩, known⟩ := members member (List.mem_cons_of_mem _ listed)
    refine ⟨?_, known⟩
    rw [row?_congr (same _ (by simp)), puts.rows]
    split
    · exact ⟨_, rfl⟩
    · exact ⟨row, held⟩
  · exact grounded.puts puts (Nat.le_of_eq next.symm) (by simp)
  · intro member listed
    rw [puts.row?_other (by simp)]
    exact members member listed

theorem createSport_settles (grounded : c.db.Grounded) (plan : createSport.Plan) (p : CreateSport)
    (time : Timestamp) :
    (createSport.carryOut time plan p).Ends c.db fun _ after => after.Grounded := by
  refine (Write.create_ends grounded _ fun m other stored collides => ?_).bind ?_
  · exact Table.not_collides_of_unlisted rfl collides
  · intro row after given
    obtain ⟨-, puts, next⟩ := given
    exact pure_ends (grounded.puts puts (by omega) (by simp))

theorem updateSport_settles (grounded : c.db.Grounded) {p : UpdateSport} {plan : updateSport.Plan}
    (examined : updateSport.examine c p = .ok plan) (time : Timestamp) :
    (updateSport.carryOut time plan p).Ends c.db fun _ after => after.Grounded := by
  obtain ⟨sport, got, -⟩ := exists_of_bind_eq_ok examined
  have stored := Context.get_eq_ok got
  obtain ⟨fee, id, newName⟩ := p
  cases newName with
  | none => exact pure_ends grounded
  | some name =>
    refine (Write.modify_ends grounded.sound _ id stored fun m other beside collides => ?_).bind ?_
    · exact absurd collides (Table.not_collides_of_unlisted rfl)
    · intro _ after given
      obtain ⟨puts, next⟩ := given
      exact pure_ends (grounded.puts puts (Nat.le_of_eq next.symm) (by simp))

theorem deleteSport_settles (grounded : c.db.Grounded) {p : DeleteSport} {plan : deleteSport.Plan}
    (examined : deleteSport.examine c p = .ok plan) (time : Timestamp) :
    (deleteSport.carryOut time plan p).Ends c.db fun _ after => after.Grounded := by
  obtain ⟨sport, got, rest⟩ := exists_of_bind_eq_ok examined
  have stored := Context.get_eq_ok got
  obtain ⟨groups, found, planned⟩ := exists_of_bind_eq_ok rest
  cases planned
  obtain ⟨distinct, member⟩ := listed_startingWith_spec grounded.sound Table.eventGroup_by_sport
    [p.sport.part]
  rw [of_mapError_eq_ok found] at distinct member
  refine (Write.removeAll_ends grounded _ _ ?_ fun id planned => ?_).bind ?_
  · rw [List.map_map]
    exact distinct
  · obtain ⟨group, inside, rfl⟩ := List.mem_map.mp planned
    exact ⟨group, ((member group).mp inside).1⟩
  intro _ mid given
  obtain ⟨settled, same⟩ := given
  have remaining : mid.row? .sport p.sport.number = some sport := by
    rw [row?_congr (same _ (by simp)), stored]
  apply (Write.remove_ends settled.sound _ p.sport remaining).bind
  intro _ after given
  obtain ⟨puts, next⟩ := given
  exact pure_ends (settled.removed puts next)

-- An event group is listed along with its own id, which nothing else has.
theorem createEventGroup_settles (grounded : c.db.Grounded) (plan : createEventGroup.Plan)
    (p : CreateEventGroup) (time : Timestamp) :
    (createEventGroup.carryOut time plan p).Ends c.db fun _ after => after.Grounded := by
  refine (Write.create_ends grounded _ fun m other stored collides => ?_).bind ?_
  · rw [Table.collides_eventGroup] at collides
    have number : c.db.next .eventGroup = m :=
      (congrArg RecordId.number collides.2).trans (grounded.sound.numbered stored)
    exact absurd (grounded.sound.bounded stored) (by omega)
  · intro row after given
    obtain ⟨-, puts, next⟩ := given
    exact pure_ends (grounded.puts puts (by omega) (by simp))

theorem updateEventGroup_settles (grounded : c.db.Grounded) {p : UpdateEventGroup}
    {plan : updateEventGroup.Plan} (examined : updateEventGroup.examine c p = .ok plan)
    (time : Timestamp) :
    (updateEventGroup.carryOut time plan p).Ends c.db fun _ after => after.Grounded := by
  obtain ⟨group, got, -⟩ := exists_of_bind_eq_ok examined
  refine (Write.modify_ends grounded.sound _ p.group (Context.get_eq_ok got)
    fun m other beside collides => ?_).bind ?_
  · rw [Table.collides_eventGroup] at collides
    exact (grounded.sound.numbered beside).symm.trans (congrArg RecordId.number collides.2).symm
  · intro _ after given
    obtain ⟨puts, next⟩ := given
    exact pure_ends (grounded.puts puts (Nat.le_of_eq next.symm) (by simp))

theorem deleteEventGroup_settles (grounded : c.db.Grounded) {p : DeleteEventGroup}
    {plan : deleteEventGroup.Plan} (examined : deleteEventGroup.examine c p = .ok plan)
    (time : Timestamp) :
    (deleteEventGroup.carryOut time plan p).Ends c.db fun _ after => after.Grounded := by
  obtain ⟨group, got, -⟩ := exists_of_bind_eq_ok examined
  apply (Write.remove_ends grounded.sound _ p.group (Context.get_eq_ok got)).bind
  intro _ after given
  obtain ⟨puts, next⟩ := given
  exact pure_ends (grounded.removed puts next)

end Rule

end RoomLedger
