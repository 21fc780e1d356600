import RoomLedger.Proofs.OperationLineage
import RoomLedger.Proofs.RecordIds
import RoomLedger.Proofs.RoomInvariant

namespace RoomLedger

open Database Change

namespace Database

variable {db mid after : Database} {room : RoomId} {account : AccountId} {epoch : UInt32} {key : String} {n : Nat}

def epoch? (db : Database) (room : RoomId) : Option UInt32 := (db.row? .room room.number).map Room.epoch

theorem epoch?_congr (same : after.contents.get .room = db.contents.get .room) : after.epoch? = db.epoch? := by
  funext room
  rw [epoch?, epoch?, row?_eq_contents, row?_eq_contents, same]

theorem Puts.epoch?_other {k : Kind} {held : Option k.Row} (puts : db.Puts k n held after) (other : .room ≠ k) :
    after.epoch? = db.epoch? :=
  epoch?_congr (contents_congr (puts.others _ other))

theorem Puts.epoch? {held : Option Room} (puts : db.Puts .room n held after) (room : RoomId) :
    after.epoch? room = if room = ⟨n⟩ then held.map Room.epoch else db.epoch? room := by
  have place : room = ⟨n⟩ ↔ room.number = n := ⟨fun same => by rw [same], fun same => congrArg RecordId.mk same⟩
  rw [Database.epoch?, Database.epoch?, puts.rows]
  simp only [place]
  split <;> rfl

theorem StoresKeys.pastKey?_listed {keys : List (UInt32 × String)} (sound : db.Sound)
    (stores : StoresKeys room account keys db after) (distinct : (keys.map Prod.fst).Nodup)
    (listed : (epoch, key) ∈ keys) : after.pastKey? room epoch account = some key := by
  induction stores with
  | nil => cases listed
  | cons stores later ih =>
    have sound := stores.puts.continues.sound sound
    obtain ⟨apart, distinct⟩ := List.nodup_cons.mp distinct
    rcases List.mem_cons.mp listed with here | there
    · cases here
      rw [later.pastKey?_other sound fun both => apart both.2.2, stores.pastKey? _, if_pos ⟨rfl, rfl, rfl⟩]
      assumption
    · exact ih sound distinct there

theorem StoresKeys.pastKey? {keys : SortedMap UInt32 String} (sound : db.Sound)
    (stores : StoresKeys room account keys.entries db after) (inside : RoomId) (of : UInt32) (who : AccountId) :
    after.pastKey? inside of who =
      if inside = room ∧ who = account then (keys.get? of).or (db.pastKey? inside of who)
      else db.pastKey? inside of who := by
  split
  · rename_i here
    obtain ⟨rfl, rfl⟩ := here
    cases given : keys.get? of with
    | some key => exact stores.pastKey?_listed sound keys.nodup_keys ((keys.mem_entries_iff _ _).mpr given)
    | none =>
      refine stores.pastKey?_other sound fun both => ?_
      obtain ⟨key, found⟩ := (keys.mem_keys_iff of).mp both.2.2
      rw [given] at found
      cases found
  · rename_i apart
    exact stores.pastKey?_other sound fun both => apart ⟨both.1, both.2.1⟩

theorem Rekeys.known {given : AccountId → Option String} {members : List (ParticipantId × AccountId)}
    (rekeys : Rekeys room epoch given members db after) (listed : account ∈ members.map Prod.snd) :
    (given account).isSome := by
  induction rekeys with
  | nil => cases listed
  | cons known _ _ _ _ ih =>
    rcases List.mem_cons.mp listed with rfl | there
    · exact Option.isSome_of_eq_some known
    · exact ih there

end Database

namespace Deed

variable {d : Deed} {room : RoomId} {epoch : UInt32} {account : AccountId}

def epoch? (d : Deed) (room : RoomId) : Option UInt32 :=
  let held := d.before.epoch? room
  match d.operation with
  | .createRoom _ => if d.outcome = .object room.id then some 0 else held
  | .rotateKey p => if room = p.room then held.map (· + 1) else held
  | .deleteRoom p => if room = p.room then none else held
  | _ => held

def key? (d : Deed) (room : RoomId) (epoch : UInt32) (account : AccountId) : Option String :=
  let held := d.before.pastKey? room epoch account
  match d.operation with
  | .createRoom p =>
    if d.outcome = .object room.id ∧ epoch = 0 ∧ account = p.owner then some p.roomKey else held
  | .addParticipant p =>
    if room = p.room ∧ account = p.participant then
      if d.before.epoch? room = some epoch then some p.contentKey else (p.epochKeys.get? epoch).or held
    else held
  | .rotateKey p =>
    if room = p.room ∧ d.after.epoch? room = some epoch ∧ (d.before.participantIn? room account).isSome then
      p.participantKeys.get? account
    else held
  | .deleteRoom p => if room = p.room then none else held
  | _ => held

-- It hands out the keys that it has been given, each to one account for one epoch of one room, and
-- leaves every other key as it was.
structure Lawful (d : Deed) : Prop where
  sound : d.before.Sound
  epochs : ∀ room, d.after.epoch? room = d.epoch? room
  keys : ∀ room epoch account, d.after.pastKey? room epoch account = d.key? room epoch account
  created : ∀ p, d.operation = .createRoom p →
    d.outcome = .object (⟨d.before.next .room⟩ : RoomId).id ∧
      (d.after.participantIn? ⟨d.before.next .room⟩ p.owner).isSome
  added : ∀ p, d.operation = .addParticipant p → d.before.OwnedBy p.room p.owner ∧
    ∃ current, d.before.epoch? p.room = some current ∧ ∀ e, (p.epochKeys.get? e).isSome → e < current
  rotated : ∀ p, d.operation = .rotateKey p →
    (∃ current, d.before.epoch? p.room = some current ∧ current ≠ 0xffffffff) ∧
      ∀ account, (d.before.participantIn? p.room account).isSome →
        p.participantKeys.contains account ∧ (d.after.participantIn? p.room account).isSome

-- What an operation costs is not a matter of rooms.
theorem Lawful.congr (lawful : d.Lawful) {after : Database}
    (same : ∀ k, k ∈ [Kind.room, .participant, .epochKey] → after.contents.get k = d.after.contents.get k) :
    Lawful { d with after := after } := by
  have epochs := epoch?_congr (same .room (by simp))
  have keys := pastKey?_congr (same .epochKey (by simp))
  refine ⟨lawful.sound, fun room => ?_, fun room epoch account => ?_, fun p created => ?_, lawful.added,
    fun p rotated => ⟨(lawful.rotated p rotated).1, fun account inside => ?_⟩⟩
  · change after.epoch? room = d.epoch? room
    rw [epochs, lawful.epochs]
  · change after.pastKey? room epoch account = _
    rw [keys, lawful.keys]
    unfold key?
    rw [epochs]
  · change _ ∧ (after.participantIn? _ _).isSome
    rw [participantIn?_congr (same .participant (by simp))]
    exact lawful.created p created
  · change _ ∧ (after.participantIn? _ _).isSome
    rw [participantIn?_congr (same .participant (by simp))]
    exact (lawful.rotated p rotated).2 account inside

end Deed

variable {c : Context} {db after : Database} {time : Timestamp} {outcome : Outcome}

theorem RecordId.id_inj {k : Kind} {a b : RecordId k} : a.id = b.id ↔ a = b :=
  ⟨fun same => congrArg RecordId.mk (Kind.id_inj.mp same).2, congrArg RecordId.id⟩

namespace Rule

theorem createRoom_answers (sound : db.Sound) {p : CreateRoom} {plan : createRoom.Plan}
    (run : createRoom.carryOut time plan p db = (.ok outcome, after)) :
    outcome = .object (⟨db.next .room⟩ : RoomId).id := by
  obtain ⟨room, one, first, run⟩ := bind_eq_ok run
  obtain ⟨rfl, -⟩ := Write.create_eq_ok sound first
  obtain ⟨_, _, -, run⟩ := bind_eq_ok run
  obtain ⟨_, _, -, left⟩ := bind_eq_ok run
  cases left
  rfl

theorem createRoom_lawful (sound : db.Sound) {p : CreateRoom} {plan : createRoom.Plan}
    (run : createRoom.carryOut time plan p db = (.ok outcome, after)) :
    Deed.Lawful ⟨db, .createRoom p, outcome, after⟩ := by
  have answer := createRoom_answers sound run
  obtain ⟨n, m, l, one, two, rfl, first, fresh, second, third⟩ := createRoom_steps sound run
  have sound₁ := first.continues.sound sound
  have sound₂ := second.continues.sound sound₁
  have here : ∀ room : RoomId, outcome = .object room.id ↔ room = ⟨db.next .room⟩ := fun room => by
    rw [answer, Outcome.object.injEq, RecordId.id_inj, eq_comm]
  have joined : after.memberKey? ⟨db.next .room⟩ p.owner = some p.roomKey := by
    rw [third.puts.memberKey?_other (by simp), second.memberKey? sound₁ ⟨db.next .room⟩ p.owner
      (fun q stored => by rw [fresh] at stored; cases stored)
      (fun q same => by cases same; exact ⟨rfl, rfl⟩) (.inr ⟨_, rfl⟩), if_pos ⟨rfl, rfl⟩]
    rfl
  refine ⟨sound, fun room => ?_, fun room epoch account => ?_, fun q same => ?_, nofun, nofun⟩
  · rw [third.puts.epoch?_other (by simp), second.epoch?_other (by simp), first.epoch?]
    simp only [Deed.epoch?, here]
    rfl
  · rw [third.pastKey? sound₂, second.pastKey?_other (by simp), first.pastKey?_other (by simp)]
    simp only [Deed.key?, here]
  · cases same
    refine ⟨answer, ?_⟩
    rw [memberKey?] at joined
    rw [← Option.isSome_map, joined]
    rfl

theorem updateRoom_lawful (sound : db.Sound) {p : UpdateRoom} {plan : updateRoom.Plan}
    (run : updateRoom.carryOut time plan p db = (.ok outcome, after)) :
    Deed.Lawful ⟨db, .updateRoom p, outcome, after⟩ := by
  obtain ⟨room, stored, puts⟩ := updateRoom_steps sound run
  refine ⟨sound, fun other => ?_, fun other epoch account => ?_, nofun, nofun, nofun⟩
  · rw [puts.epoch?]
    change _ = db.epoch? other
    split
    · rename_i same
      rw [same, epoch?, stored]
      rfl
    · rfl
  · rw [puts.pastKey?_other (by simp)]
    rfl

theorem addParticipant_lawful (sound : c.db.Sound) {p : AddParticipant} {epoch : addParticipant.Plan}
    (examined : addParticipant.examine c p = .ok epoch)
    (run : addParticipant.carryOut time epoch p c.db = (.ok outcome, after)) :
    Deed.Lawful ⟨c.db, .addParticipant p, outcome, after⟩ := by
  obtain ⟨room, housed, owner, rfl, -, -, -, early⟩ := addParticipant_planned examined
  obtain ⟨m, l, one, two, -, first, second, third⟩ := addParticipant_steps sound run
  have sound₁ := first.continues.sound sound
  have sound₂ := second.puts.continues.sound sound₁
  have current : c.db.epoch? p.room = some room.epoch := by rw [epoch?, housed]; rfl
  have past : ∀ e, (p.epochKeys.get? e).isSome → e < room.epoch := fun e given => by
    obtain ⟨key, found⟩ := Option.isSome_iff_exists.mp given
    exact early (e, key) ((p.epochKeys.mem_entries_iff e key).mpr found)
  refine ⟨sound, fun inside => ?_, fun inside e who => ?_, nofun, fun q same => ?_, nofun⟩
  · rw [epoch?_congr (contents_congr (third.tables (by simp))), second.puts.epoch?_other (by simp),
      first.epoch?_other (by simp)]
    rfl
  · rw [third.pastKey? sound₂, second.pastKey? sound₁, first.pastKey?_other (by simp)]
    simp only [Deed.key?]
    by_cases here : inside = p.room ∧ who = p.participant
    · obtain ⟨rfl, rfl⟩ := here
      simp only [true_and, and_true, if_true, current, Option.some.injEq]
      by_cases now : e = room.epoch
      · subst now
        cases given : p.epochKeys.get? room.epoch with
        | some key => exact absurd (past _ (by rw [given]; rfl)) (UInt32.lt_irrefl _)
        | none => simp only [if_true, Option.none_or]
      · rw [if_neg now, if_neg (Ne.symm now)]
    · rw [if_neg here, if_neg here, if_neg fun both => here ⟨both.1, both.2.2⟩]
  · cases same
    exact ⟨(ownedBy_iff sound).mpr ⟨room, housed, owner⟩, room.epoch, current, past⟩

theorem removeParticipant_lawful (sound : db.Sound) {p : RemoveParticipant} {plan : removeParticipant.Plan}
    (run : removeParticipant.carryOut time plan p db = (.ok outcome, after)) :
    Deed.Lawful ⟨db, .removeParticipant p, outcome, after⟩ := by
  obtain ⟨-, puts⟩ := removeParticipant_steps sound run
  refine ⟨sound, fun room => ?_, fun room epoch account => ?_, nofun, nofun, nofun⟩
  · rw [puts.epoch?_other (by simp)]
    rfl
  · rw [puts.pastKey?_other (by simp)]
    rfl

theorem rotateKey_lawful (sound : c.db.Sound) {p : RotateKey} {plan : Rotation}
    (examined : rotateKey.examine c p = .ok plan)
    (run : rotateKey.carryOut time plan p c.db = (.ok outcome, after)) :
    Deed.Lawful ⟨c.db, .rotateKey p, outcome, after⟩ := by
  obtain ⟨room, ⟨housed, -⟩, ⟨next, spare⟩, listed, -⟩ := rotateKey_planned examined
  obtain ⟨_, one, there, puts, rekeys⟩ := rotateKey_steps sound run
  rw [housed] at there
  cases there
  have sound₁ := puts.continues.sound sound
  have names := rotateKey_names sound examined puts
  have known : ∀ who, who ∈ plan.members.map Prod.snd → p.participantKeys.contains who := fun _ => rekeys.known
  have inside : ∀ who, who ∈ plan.members.map Prod.snd ↔ (c.db.participantIn? p.room who).isSome := by
    intro who
    rw [← Option.isSome_map (f := Participant.contentKey)]
    change _ ↔ (c.db.memberKey? p.room who).isSome
    rw [listed, List.map_map, ← mem_accounts_iff sound]
    rfl
  obtain ⟨members, past⟩ := rekeys_keys sound₁ rekeys names
  rw [puts.memberKey?_other (by simp)] at members
  rw [puts.pastKey?_other (by simp)] at past
  have current : c.db.epoch? p.room = some room.epoch := by rw [epoch?, housed]; rfl
  have later : ∀ r, after.epoch? r = if r = p.room then some plan.epoch else c.db.epoch? r := fun r => by
    rw [epoch?_congr (contents_congr (rekeys.tables (by simp) (by simp))), puts.epoch?]
    rfl
  refine ⟨sound, fun r => ?_, fun r e who => ?_, nofun, nofun, fun q same => ?_⟩
  · rw [later]
    simp only [Deed.epoch?]
    split
    · rename_i same
      rw [same, current, next]
      rfl
    · rfl
  · rw [past]
    simp only [Deed.key?, later, inside]
    by_cases here : r = p.room
    · subst here
      simp only [if_true, true_and, Option.some.injEq, eq_comm]
    · simp only [here, false_and, if_false]
  · cases same
    refine ⟨⟨_, current, spare⟩, fun who member => ?_⟩
    have named := (inside who).mpr member
    refine ⟨known who named, ?_⟩
    rw [← Option.isSome_map (f := Participant.contentKey)]
    change (after.memberKey? p.room who).isSome
    rw [members, if_pos ⟨rfl, named⟩]
    exact known who named

theorem deleteRoom_lawful (sound : c.db.Sound) {p : DeleteRoom} {plan : Belongings}
    (examined : deleteRoom.examine c p = .ok plan)
    (run : deleteRoom.carryOut time plan p c.db = (.ok outcome, after)) :
    Deed.Lawful ⟨c.db, .deleteRoom p, outcome, after⟩ := by
  have vacates := deleteRoom_vacates sound examined run
  have sound' := vacates.continues.sound sound
  refine ⟨sound, fun r => ?_, fun r e who => ?_, nofun, nofun, nofun⟩
  · simp only [Deed.epoch?]
    rw [epoch?, vacates.rooms]
    by_cases here : r = p.room
    · rw [if_pos (congrArg RecordId.number here), if_pos here]
      rfl
    · rw [if_neg fun same => here (congrArg RecordId.mk same), if_neg here]
      rfl
  · simp only [Deed.key?]
    split
    · rename_i here
      subst here
      refine Option.map_eq_none_iff.mpr (Option.eq_none_iff_forall_ne_some.mpr fun e found => ?_)
      obtain ⟨stored, inside, -⟩ := (epochKey?_eq_some_iff sound').mp found
      exact ((vacates.keys _ _).mp stored).2 inside
    · rename_i apart
      exact congrFun (congrFun ((deleteRoom_within sound examined run).confined.pastKey? sound sound' apart) e) who

end Rule

namespace Operation

theorem carryOut_lawful_elsewhere {op : Operation} {plan : op.Plan}
    (apart : ∀ k, k ∈ [Kind.room, .participant, .epochKey] → k ∉ op.kind.written) (sound : db.Sound)
    (run : op.carryOut time plan db = (.ok outcome, after)) : Deed.Lawful ⟨db, op, outcome, after⟩ := by
  have same : ∀ k, k ∈ [Kind.room, .participant, .epochKey] → after.contents.get k = db.contents.get k :=
    fun k listed => contents_congr (((carryOut_edits op time plan).edited run).tables (apart k listed))
  have epochs := epoch?_congr (same .room (by simp))
  have keys := pastKey?_congr (same .epochKey (by simp))
  cases op with
  | createRoom _ | addParticipant _ | rotateKey _ | deleteRoom _ =>
    exact absurd (by simp [kind, OperationKind.written]) (apart .epochKey (by simp))
  | _ =>
    refine ⟨sound, congrFun epochs, fun room epoch account => by rw [keys]; rfl, fun _ same => ?_, fun _ same => ?_,
      fun _ same => ?_⟩ <;> cases same

theorem carryOut_lawful (sound : c.db.Sound) {op : Operation} {plan : op.Plan} (examined : op.examine c = .ok plan)
    (run : op.carryOut time plan c.db = (.ok outcome, after)) : Deed.Lawful ⟨c.db, op, outcome, after⟩ := by
  cases op with
  | createRoom p => exact Rule.createRoom_lawful sound run
  | updateRoom p => exact Rule.updateRoom_lawful sound run
  | addParticipant p => exact Rule.addParticipant_lawful sound examined run
  | removeParticipant p => exact Rule.removeParticipant_lawful sound run
  | rotateKey p => exact Rule.rotateKey_lawful sound examined run
  | deleteRoom p => exact Rule.deleteRoom_lawful sound examined run
  | _ => exact carryOut_lawful_elsewhere (by simp [kind, OperationKind.written]) sound run

theorem Performed.lawful {op : Operation} (performed : op.Performed c outcome after) (sound : c.db.Sound) :
    Deed.Lawful ⟨c.db, op, outcome, after⟩ := by
  obtain ⟨plan, mid, examined, -, carried, charged⟩ := performed.stages sound
  have charges := (charge_edits op.name op.payer c.fee).edited charged
  refine (carryOut_lawful sound examined carried).congr fun k listed => contents_congr (charges.tables ?_)
  revert k
  decide

end Operation

end RoomLedger
