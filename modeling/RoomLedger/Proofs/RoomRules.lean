import RoomLedger.Proofs.RoomConfinement

namespace RoomLedger

open Database Change

variable {c : Context} {config : Config} {db after : Database} {time : Timestamp} {outcome : Outcome}
  {room : RoomId}

namespace Database

structure RoomsInStep (config : Config) (db : Database) : Prop where
  keys : ∀ n (r : Room), db.row? .room n = some r → KeysInStep r (db.memberKey? r.id) (db.pastKey? r.id)
  size : ∀ n (r : Room), db.row? .room n = some r →
    (db.participantsOf r.id).length ≤ config.maxParticipants.toNat

theorem nodup_accounts (sound : db.Sound) (room : RoomId) :
    ((db.participantsOf room).map Participant.account).Nodup := by
  refine List.pairwise_map.mpr ((List.pairwise_map.mp (nodup_participantsOf sound room)).imp_of_mem ?_)
  intro p q listed beside different same
  obtain ⟨stored, inside⟩ := (mem_participantsOf sound).mp listed
  obtain ⟨stored', inside'⟩ := (mem_participantsOf sound).mp beside
  exact different (sound.distinct stored stored'
    (Table.collides_participant.mpr ⟨inside.trans inside'.symm, same⟩))

theorem mem_accounts_iff (sound : db.Sound) {account : AccountId} :
    account ∈ (db.participantsOf room).map Participant.account ↔ (db.memberKey? room account).isSome := by
  rw [memberKey?_isSome_iff sound, List.mem_map]

-- How many participants there are is a matter of who has a key.
theorem length_participantsOf_le (sound : db.Sound) (accounts : List AccountId)
    (known : ∀ a, (db.memberKey? room a).isSome → a ∈ accounts) :
    (db.participantsOf room).length ≤ accounts.length := by
  have subset : (db.participantsOf room).map Participant.account ⊆ accounts :=
    fun a listed => known a ((mem_accounts_iff sound).mp listed)
  have bound := ((nodup_accounts sound room).subperm subset).length_le
  rwa [List.length_map] at bound

theorem length_participantsOf_mono (sound : db.Sound) (sound' : after.Sound)
    (known : ∀ a, (after.memberKey? room a).isSome → (db.memberKey? room a).isSome) :
    (after.participantsOf room).length ≤ (db.participantsOf room).length := by
  have bound := length_participantsOf_le sound' ((db.participantsOf room).map Participant.account)
    fun a given => (mem_accounts_iff sound).mpr (known a given)
  rwa [List.length_map] at bound

theorem length_participantsOf_succ (sound : db.Sound) (sound' : after.Sound) (account : AccountId)
    (known : ∀ a, (after.memberKey? room a).isSome → a = account ∨ (db.memberKey? room a).isSome) :
    (after.participantsOf room).length ≤ (db.participantsOf room).length + 1 := by
  have bound := length_participantsOf_le sound' (account :: (db.participantsOf room).map Participant.account)
    fun a given => by
      rcases known a given with rfl | before
      · exact List.mem_cons_self ..
      · exact List.mem_cons_of_mem _ ((mem_accounts_iff sound).mpr before)
  rwa [List.length_cons, List.length_map] at bound

theorem Confined.memberKey? {other : RoomId} (confined : db.Confined room after) (sound : db.Sound)
    (sound' : after.Sound) (apart : other ≠ room) : after.memberKey? other = db.memberKey? other := by
  funext account
  rw [Database.memberKey?, Database.memberKey?]
  refine congrArg _ (Option.ext fun p => ?_)
  rw [participantIn?_eq_some_iff sound', participantIn?_eq_some_iff sound]
  refine and_congr_left fun inside => confined .participant _ p p.room rfl ?_
  rw [inside.1]
  exact apart

theorem Confined.pastKey? {other : RoomId} (confined : db.Confined room after) (sound : db.Sound)
    (sound' : after.Sound) (apart : other ≠ room) : after.pastKey? other = db.pastKey? other := by
  funext epoch account
  rw [Database.pastKey?, Database.pastKey?]
  refine congrArg _ (Option.ext fun e => ?_)
  rw [epochKey?_eq_some_iff sound', epochKey?_eq_some_iff sound]
  refine and_congr_left fun inside => confined .epochKey _ e e.room rfl ?_
  rw [inside.1]
  exact apart

-- An operation touches one room at most, so the others are in step as they were.
theorem RoomsInStep.confined (inStep : db.RoomsInStep config) (sound : db.Sound) (sound' : after.Sound)
    (confined : db.Confined room after)
    (here : ∀ r : Room, r.id = room → after.row? .room room.number = some r →
      KeysInStep r (after.memberKey? room) (after.pastKey? room) ∧
        (after.participantsOf room).length ≤ config.maxParticipants.toNat) :
    after.RoomsInStep config := by
  have both : ∀ n (r : Room), after.row? .room n = some r →
      KeysInStep r (after.memberKey? r.id) (after.pastKey? r.id) ∧
        (after.participantsOf r.id).length ≤ config.maxParticipants.toNat := by
    intro n r stored
    have number : r.id.number = n := sound'.numbered stored
    by_cases same : r.id = room
    · subst same
      rw [← number] at stored
      exact here r rfl stored
    · have before := (confined .room n r r.id rfl same).mp stored
      have members := confined.memberKey? sound sound' same
      rw [members, confined.pastKey? sound sound' same]
      refine ⟨inStep.keys n r before, Nat.le_trans ?_ (inStep.size n r before)⟩
      exact length_participantsOf_mono sound sound' fun a given => by rwa [members] at given
  exact ⟨fun n r stored => (both n r stored).1, fun n r stored => (both n r stored).2⟩

theorem RoomsInStep.congr (inStep : db.RoomsInStep config)
    (same : ∀ k, k ∈ [Kind.room, .participant, .epochKey] → after.contents.get k = db.contents.get k) :
    after.RoomsInStep config := by
  have rooms : ∀ n, after.row? .room n = db.row? .room n := fun n => by
    rw [row?_eq_contents, row?_eq_contents, same .room (by simp)]
  refine ⟨fun n r stored => ?_, fun n r stored => ?_⟩
  · rw [rooms] at stored
    rw [memberKey?_congr (same .participant (by simp)), pastKey?_congr (same .epochKey (by simp))]
    exact inStep.keys n r stored
  · rw [rooms] at stored
    rw [participantsOf_congr (same .participant (by simp))]
    exact inStep.size n r stored

-- In a room that is yet to be made there is nobody, and for it there are no keys.
theorem InOrder.vacant (inOrder : db.InOrder config) (sound : db.Sound) :
    (∀ account, db.memberKey? ⟨db.next .room⟩ account = none) ∧
      ∀ epoch account, db.pastKey? ⟨db.next .room⟩ epoch account = none := by
  -- A record of it would refer to a room that has not been made.
  have absent : ¬ db.Stores (⟨db.next .room⟩ : RoomId).place := by
    rintro ⟨r, stored⟩
    exact absurd (sound.bounded stored) (Nat.lt_irrefl _)
  constructor
  · intro account
    rw [memberKey?, Option.map_eq_none_iff]
    cases found : db.participantIn? ⟨db.next .room⟩ account with
    | none => rfl
    | some p =>
      obtain ⟨stored, inside, -⟩ := (participantIn?_eq_some_iff sound).mp found
      have housed := inOrder.referred _ _ _ stored p.room.place (List.mem_cons_self ..)
      rw [inside] at housed
      exact absurd housed absent
  · intro epoch account
    rw [pastKey?, Option.map_eq_none_iff]
    cases found : db.epochKey? ⟨db.next .room⟩ epoch account with
    | none => rfl
    | some e =>
      obtain ⟨stored, inside, -⟩ := (epochKey?_eq_some_iff sound).mp found
      have housed := inOrder.referred _ _ _ stored e.room.place (List.mem_cons_self ..)
      rw [inside] at housed
      exact absurd housed absent

end Database

namespace Rule

theorem createRoom_inStep (sound : c.db.Sound) (inOrder : c.db.InOrder c.config)
    (inStep : c.db.RoomsInStep c.config) (space : 1 ≤ c.config.maxParticipants.toNat) {p : CreateRoom}
    {plan : createRoom.Plan} (run : createRoom.carryOut time plan p c.db = (.ok outcome, after)) :
    after.RoomsInStep c.config := by
  have within := createRoom_within sound run
  obtain ⟨n, m, l, one, two, rfl, first, fresh, second, third⟩ := createRoom_steps sound run
  obtain ⟨nobody, nothing⟩ := inOrder.vacant sound
  have sound₁ := first.continues.sound sound
  have sound₂ := second.continues.sound sound₁
  have sound₃ := third.puts.continues.sound sound₂
  have members : ∀ who, after.memberKey? ⟨c.db.next .room⟩ who = if who = p.owner then some p.roomKey else none := by
    intro who
    rw [third.puts.memberKey?_other (by simp), second.memberKey? sound₁
      ⟨c.db.next .room⟩ p.owner (fun q stored => by rw [fresh] at stored; cases stored)
      (fun q same => by cases same; exact ⟨rfl, rfl⟩) (.inr ⟨_, rfl⟩),
      first.memberKey?_other (by simp), nobody]
    simp
  have past : ∀ of who, after.pastKey? ⟨c.db.next .room⟩ of who =
      if of = 0 ∧ who = p.owner then some p.roomKey else none := by
    intro of who
    rw [third.pastKey? sound₂, second.pastKey?_other (by simp), first.pastKey?_other (by simp), nothing]
    simp
  refine inStep.confined sound sound₃ within.confined fun r _ stored => ?_
  rw [third.puts.row?_other (by simp), second.row?_other (by simp), first.rows, if_pos rfl] at stored
  cases stored
  refine ⟨.created rfl members past, ?_⟩
  refine Nat.le_trans (length_participantsOf_le sound₃ [p.owner] fun a given => ?_) space
  rw [members] at given
  simpa using given

theorem updateRoom_inStep (sound : c.db.Sound) (inStep : c.db.RoomsInStep c.config) {p : UpdateRoom}
    {plan : updateRoom.Plan} (examined : updateRoom.examine c p = .ok plan)
    (run : updateRoom.carryOut time plan p c.db = (.ok outcome, after)) : after.RoomsInStep c.config := by
  have within := updateRoom_within sound examined run
  obtain ⟨room, before, puts⟩ := updateRoom_steps sound run
  have place : room.id = p.room := congrArg RecordId.mk (sound.numbered before)
  have members := puts.memberKey?_other (by simp)
  have past := puts.pastKey?_other (by simp)
  have sound' := puts.continues.sound sound
  refine inStep.confined sound sound' within.confined fun r _ stored => ?_
  rw [puts.rows, if_pos rfl] at stored
  cases stored
  have keys := inStep.keys _ _ before
  have size := inStep.size _ _ before
  rw [place] at keys size
  rw [members, past]
  exact ⟨keys.renamed p.name, Nat.le_trans
    (length_participantsOf_mono sound sound' fun a given => by rwa [members] at given) size⟩

theorem addParticipant_inStep (sound : c.db.Sound) (inStep : c.db.RoomsInStep c.config) {p : AddParticipant}
    {epoch : addParticipant.Plan} (examined : addParticipant.examine c p = .ok epoch)
    (run : addParticipant.carryOut time epoch p c.db = (.ok outcome, after)) : after.RoomsInStep c.config := by
  have within := addParticipant_within sound examined run
  obtain ⟨room, housed, -, rfl, -, free, space, early⟩ := addParticipant_planned examined
  obtain ⟨m, l, one, two, fresh, first, second, third⟩ := addParticipant_steps sound run
  have sound₁ := first.continues.sound sound
  have sound₂ := second.puts.continues.sound sound₁
  have sound₃ := third.sound sound₂
  have place : room.id = p.room := congrArg RecordId.mk (sound.numbered housed)
  have absent : c.db.memberKey? p.room p.participant = none := by rw [memberKey?, free]; rfl
  have members : ∀ who, after.memberKey? p.room who =
      if who = p.participant then some p.contentKey else c.db.memberKey? p.room who := by
    intro who
    rw [memberKey?_congr (contents_congr (third.tables (by simp))), second.puts.memberKey?_other (by simp),
      first.memberKey? sound p.room p.participant
        (fun q stored => by rw [fresh] at stored; cases stored)
        (fun q same => by cases same; exact ⟨rfl, rfl⟩) (.inr ⟨_, rfl⟩)]
    simp
  -- The keys that are handed along are of earlier epochs, so that of the current one stays.
  have late : room.epoch ∉ p.epochKeys.entries.map Prod.fst := by
    intro listed
    obtain ⟨past, member, same⟩ := List.mem_map.mp listed
    exact absurd (early past member) (by rw [same]; exact UInt32.lt_irrefl _)
  have past : ∀ of who, ¬ (who = p.participant ∧ (of = room.epoch ∨ of ∈ p.epochKeys.entries.map Prod.fst)) →
      after.pastKey? p.room of who = c.db.pastKey? p.room of who := by
    intro of who apart
    rw [third.pastKey?_other sound₂ fun both => apart ⟨both.2.1, .inr both.2.2⟩,
      second.pastKey? sound₁, if_neg fun both => apart ⟨both.2.2, .inl both.2.1⟩,
      first.pastKey?_other (by simp)]
  have handed : after.pastKey? p.room room.epoch p.participant = some p.contentKey := by
    rw [third.pastKey?_other sound₂ fun both => late both.2.2, second.pastKey? sound₁, if_pos ⟨rfl, rfl, rfl⟩]
  refine inStep.confined sound sound₃ within.confined fun r _ stored => ?_
  rw [row?_congr (third.tables (by simp)), second.puts.row?_other (by simp), first.row?_other (by simp),
    housed] at stored
  cases stored
  have keys := inStep.keys _ _ housed
  rw [place] at keys
  refine ⟨?_, ?_⟩
  · refine keys.added absent (p.epochKeys.entries.map Prod.fst) (fun e listed => ?_) members handed past
    obtain ⟨entry, member, rfl⟩ := List.mem_map.mp listed
    exact early entry member
  · refine Nat.le_trans (length_participantsOf_succ sound sound₃ p.participant fun a given => ?_) space
    rw [members] at given
    split at given
    · rename_i new
      exact .inl new
    · exact .inr given

theorem removeParticipant_inStep (sound : c.db.Sound) (inStep : c.db.RoomsInStep c.config)
    {p : RemoveParticipant} {plan : removeParticipant.Plan}
    (examined : removeParticipant.examine c p = .ok plan)
    (run : removeParticipant.carryOut time plan p c.db = (.ok outcome, after)) : after.RoomsInStep c.config := by
  obtain ⟨member, there, within⟩ := removeParticipant_within sound examined run
  obtain ⟨_, room, present, housed, -, other⟩ := removeParticipant_planned examined
  rw [there] at present
  cases present
  obtain ⟨-, puts⟩ := removeParticipant_steps sound run
  have sound' := puts.continues.sound sound
  have place : room.id = member.room := congrArg RecordId.mk (sound.numbered housed)
  have members : ∀ who, after.memberKey? member.room who =
      if who = member.account then none else c.db.memberKey? member.room who := by
    intro who
    rw [puts.memberKey? sound member.room member.account
      (fun q stored => by rw [there] at stored; cases stored; exact ⟨rfl, rfl⟩)
      (fun _ none => nomatch none) (.inl ⟨member, there⟩)]
    simp
  refine inStep.confined sound sound' within.confined fun r _ stored => ?_
  rw [puts.row?_other (by simp), housed] at stored
  cases stored
  have keys := inStep.keys _ _ housed
  have size := inStep.size _ _ housed
  rw [place] at keys size
  rw [puts.pastKey?_other (by simp)]
  refine ⟨keys.removed other members, Nat.le_trans (length_participantsOf_mono sound sound' fun a given => ?_) size⟩
  rw [members] at given
  split at given
  · cases given
  · exact given

theorem rotateKey_inStep (sound : c.db.Sound) (inStep : c.db.RoomsInStep c.config) {p : RotateKey}
    {plan : Rotation} (examined : rotateKey.examine c p = .ok plan)
    (run : rotateKey.carryOut time plan p c.db = (.ok outcome, after)) : after.RoomsInStep c.config := by
  have within := rotateKey_within sound examined run
  obtain ⟨room, ⟨housed, owner⟩, ⟨next, spare⟩, listed, own⟩ := rotateKey_planned examined
  obtain ⟨_, one, there, puts, rekeys⟩ := rotateKey_steps sound run
  rw [housed] at there
  cases there
  have sound₁ := puts.continues.sound sound
  have sound' := rekeys.sound sound₁
  have place : room.id = p.room := congrArg RecordId.mk (sound.numbered housed)
  have names := rotateKey_names sound examined puts
  have inside : ∀ who, who ∈ plan.members.map Prod.snd ↔ (c.db.memberKey? p.room who).isSome := by
    intro who
    rw [listed, List.map_map, ← mem_accounts_iff sound]
    rfl
  -- The plan lists the members that there were, and these are the ones who get a key.
  obtain ⟨members, past⟩ := rekeys_keys sound₁ rekeys names
  rw [puts.memberKey?_other (by simp)] at members
  rw [puts.pastKey?_other (by simp)] at past
  refine inStep.confined sound sound' within.confined fun r _ stored => ?_
  rw [row?_congr (rekeys.tables (by simp) (by simp)), puts.rows, if_pos rfl] at stored
  cases stored
  have keys := inStep.keys _ _ housed
  have size := inStep.size _ _ housed
  rw [place] at keys size
  rw [← owner] at own
  rw [next]
  refine ⟨keys.rotated spare own (fun a => ?_) (fun e a => ?_), ?_⟩
  · rw [members]
    by_cases member : (c.db.memberKey? p.room a).isSome
    · rw [if_pos ⟨rfl, (inside a).mpr member⟩, if_pos member]
    · rw [if_neg fun both => member ((inside a).mp both.2), if_neg member]
      simpa using member
  · rw [past, next]
    simp only [true_and, inside]
  · refine Nat.le_trans (length_participantsOf_mono sound sound' fun a given => ?_) size
    rw [members] at given
    split at given
    · rename_i member
      exact (inside a).mp member.2
    · exact given

theorem deleteRoom_inStep (sound : c.db.Sound) (inStep : c.db.RoomsInStep c.config) {p : DeleteRoom}
    {plan : Belongings} (examined : deleteRoom.examine c p = .ok plan)
    (run : deleteRoom.carryOut time plan p c.db = (.ok outcome, after)) : after.RoomsInStep c.config := by
  have within := deleteRoom_within sound examined run
  have vacates := deleteRoom_vacates sound examined run
  refine inStep.confined sound (vacates.continues.sound sound) within.confined fun r _ stored => ?_
  rw [vacates.rooms, if_pos rfl] at stored
  cases stored

end Rule

namespace Operation

theorem carryOut_elsewhere {op : Operation} {plan : op.Plan} (inStep : db.RoomsInStep config)
    (apart : ∀ k, k ∈ [Kind.room, .participant, .epochKey] → k ∉ op.kind.written)
    (run : op.carryOut time plan db = (.ok outcome, after)) : after.RoomsInStep config :=
  inStep.congr fun k listed =>
    contents_congr (((carryOut_edits op time plan).edited run).tables (apart k listed))

theorem carryOut_inStep (sound : c.db.Sound) (inOrder : c.db.InOrder c.config)
    (inStep : c.db.RoomsInStep c.config) (space : 1 ≤ c.config.maxParticipants.toNat) {op : Operation}
    {plan : op.Plan} (examined : op.examine c = .ok plan)
    (run : op.carryOut time plan c.db = (.ok outcome, after)) : after.RoomsInStep c.config := by
  cases op with
  | createRoom p => exact Rule.createRoom_inStep sound inOrder inStep space run
  | updateRoom p => exact Rule.updateRoom_inStep sound inStep examined run
  | addParticipant p => exact Rule.addParticipant_inStep sound inStep examined run
  | removeParticipant p => exact Rule.removeParticipant_inStep sound inStep examined run
  | rotateKey p => exact Rule.rotateKey_inStep sound inStep examined run
  | deleteRoom p => exact Rule.deleteRoom_inStep sound inStep examined run
  | _ => exact carryOut_elsewhere inStep (by simp [kind, OperationKind.written]) run

theorem Performed.inStep {op : Operation} (performed : op.Performed c outcome after) (sound : c.db.Sound)
    (inOrder : c.db.InOrder c.config) (inStep : c.db.RoomsInStep c.config)
    (space : 1 ≤ c.config.maxParticipants.toNat) : after.RoomsInStep c.config := by
  obtain ⟨plan, mid, examined, -, carried, charged⟩ := performed.stages sound
  have charges := (charge_edits op.name op.payer c.fee).edited charged
  refine (carryOut_inStep sound inOrder inStep space examined carried).congr fun k listed =>
    contents_congr (charges.tables ?_)
  revert k
  decide

end Operation

end RoomLedger
