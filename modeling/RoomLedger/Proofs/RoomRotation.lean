import RoomLedger.Proofs.FeePayments
import RoomLedger.Proofs.ReachedStates

namespace RoomLedger

open Database Change

variable {db mid after : Database} {c : Context} {room : RoomId} {epoch : UInt32} {account : AccountId} {key : String}
  {time : Timestamp} {outcome : Outcome} {p : RotateKey} {plan : Rotation} {operation : String}

theorem keys_match_iff {keys : SortedMap AccountId String} {present : SortedSet AccountId} :
    (present.toList.filter (fun account => !keys.contains account) = [] ∧
      keys.keys.filter (fun account => !present.contains account) = []) ↔
    ∀ account, account ∈ keys.keys ↔ present.contains account = true := by
  have listed : ∀ account, account ∈ keys.keys ↔ keys.contains account = true := fun account => by
    rw [keys.mem_keys_iff, keys.contains_iff]
  simp only [List.filter_eq_nil_iff, Bool.not_eq_true', Bool.not_eq_false, SortedSet.mem_toList_iff]
  constructor
  · rintro ⟨missing, unexpected⟩ account
    exact ⟨unexpected account, fun given => (listed account).mpr (missing account given)⟩
  · intro same
    exact ⟨fun account given => (listed account).mp ((same account).mpr given), fun account => (same account).mp⟩

namespace Database

-- The room is the owner's, has an epoch left, and each of its participants is given a key.
structure Rotatable (db : Database) (p : RotateKey) : Prop where
  room : ∃ room ∈ db.rows .room, room.id = p.room ∧ room.owner = p.owner ∧ room.epoch.toNat < 2 ^ 32 - 1
  keys : ∀ account, account ∈ p.participantKeys.keys ↔
    ∃ m ∈ db.rows .participant, m.room = p.room ∧ m.account = account
  owner : p.participantKeys.get? p.owner = some p.newRoomKey

end Database

theorem epoch_spare_iff : epoch ≠ 0xffffffff ↔ epoch.toNat < 2 ^ 32 - 1 := by
  have bound := epoch.toNat_lt
  have same : epoch = 0xffffffff ↔ epoch.toNat = 4294967295 := UInt32.toNat_inj.symm
  rw [Ne, same]
  omega

theorem mem_present_iff (sound : db.Sound) {room : RoomId} :
    (SortedSet.ofList (((db.participantsOf room).map fun m => (m.id, m.account)).map (·.2))).contains account = true ↔
      ∃ m ∈ db.rows .participant, m.room = room ∧ m.account = account := by
  rw [SortedSet.contains_ofList, decide_eq_true_eq, participantsOf_eq sound]
  simp only [List.map_map, List.mem_map, List.mem_filter, decide_eq_true_eq, Function.comp, and_assoc]

theorem Rule.rotateKey_examine_iff (sound : c.db.Sound) :
    (∃ plan, rotateKey.examine c p = .ok plan) ↔ c.db.Rotatable p := by
  constructor
  · intro given
    obtain ⟨plan, examined⟩ := given
    obtain ⟨room, ⟨stored, owner⟩, ⟨-, spare⟩, -, own⟩ := rotateKey_planned examined
    obtain ⟨_, -, rest⟩ := exists_of_bind_eq_ok examined
    dsimp only at rest
    split at rest
    · cases rest
    rename_i matching
    simp only [Bool.or_eq_true, Bool.not_eq_true', not_or, Bool.not_eq_false, List.isEmpty_iff] at matching
    refine ⟨⟨room, mem_rows_iff.mpr ⟨_, stored⟩, congrArg RecordId.mk (sound.numbered stored), owner,
      epoch_spare_iff.mp spare⟩, fun account => ?_, own⟩
    rw [keys_match_iff.mp matching, mem_present_iff sound]
  · intro given
    obtain ⟨⟨room, listed, place, owner, spare⟩, keys, own⟩ := given
    have stored : c.db.row? .room p.room.number = some room := by
      rw [← place]
      exact (mem_rows sound).mp listed
    have owned := Context.ownedRoom_eq_ok_iff.mpr ⟨stored, owner⟩
    have matching := keys_match_iff.mpr fun account => (keys account).trans (mem_present_iff sound).symm
    refine ⟨⟨room.epoch + 1, (c.db.participantsOf p.room).map fun m => (m.id, m.account)⟩, ?_⟩
    simp only [rotateKey, owned, matching, own, epoch_spare_iff.mpr spare, bind, Except.bind, ne_eq,
      not_true_eq_false, if_false, List.isEmpty_nil, Bool.not_true, Bool.or_self, Bool.false_eq_true]
    rfl

namespace Write

-- Nobody has a key of an epoch that begins, so a record is made for it.
theorem epochKey_creates (sound : db.Sound) (absent : db.pastKey? room epoch account = none) {id : EpochKeyId}
    (run : Write.epochKey operation room epoch account key db = (.ok id, after)) :
    id = ⟨db.next .epochKey⟩ ∧ db.StoresKey room epoch account key (db.next .epochKey) after ∧
      after.next .epochKey = db.next .epochKey + 1 := by
  obtain ⟨now, here, current, run⟩ := bind_eq_ok run
  cases current
  rw [Option.map_eq_none_iff.mp absent] at run
  obtain ⟨record, mid, created, left⟩ := bind_eq_ok run
  cases left
  obtain ⟨rfl, puts, counted⟩ := Database.create_eq_ok sound (adapt_eq_ok created)
  refine ⟨rfl, ⟨puts, fun e before => ?_⟩, counted⟩
  rw [row?_next sound] at before
  cases before

end Write

namespace Database

variable {given : AccountId → Option String} {members : List (ParticipantId × AccountId)} {fresh : List EpochKey}

structure Awaits (db : Database) (room : RoomId) (epoch : UInt32) (members : List (ParticipantId × AccountId)) :
    Prop where
  names : db.Names room members
  once : (members.map Prod.snd).Nodup
  keyless : ∀ account ∈ members.map Prod.snd, db.pastKey? room epoch account = none

structure Hands (room : RoomId) (epoch : UInt32) (given : AccountId → Option String)
    (members : List (ParticipantId × AccountId)) (fresh : List EpochKey) (db after : Database) : Prop where
  continues : db.Continues after
  participants : ∀ n, after.row? .participant n = (db.row? .participant n).map fun m : Participant =>
    if n ∈ members.map fun member => member.1.number then
      { m with contentKey := (given m.account).getD m.contentKey } else m
  keys : after.rows .epochKey = db.rows .epochKey ++ fresh
  told : fresh.map (fun e => (e.room, e.epoch, e.account, some e.contentKey)) =
    members.map fun member => (room, epoch, member.2, given member.2)
  late : ∀ e ∈ fresh, db.next .epochKey ≤ e.id.number
  others : ∀ k, k ≠ .participant → k ≠ .epochKey → after.tables.get k = db.tables.get k

theorem Awaits.rekeyed {one : Database} {id : ParticipantId} {m : Participant} {n : Nat}
    (awaits : db.Awaits room epoch ((id, account) :: members)) (sound : one.Sound)
    (stored : db.row? .participant id.number = some m)
    (puts : db.Puts .participant id.number (some { m with contentKey := key }) one)
    (stores : one.StoresKey room epoch account key n after) : after.Awaits room epoch members := by
  obtain ⟨apart, once⟩ := List.nodup_cons.mp awaits.once
  refine ⟨awaits.names.rekeyed stored puts stores, once, fun who listed => ?_⟩
  have other : who ≠ account := fun same => apart (same ▸ listed)
  rw [stores.pastKey? sound, if_neg fun both => other both.2.2, puts.pastKey?_other (by simp)]
  exact awaits.keyless who (List.mem_cons_of_mem _ listed)

theorem Hands.nil (sound : db.Sound) : Hands room epoch given [] [] db db := by
  refine ⟨.refl sound, fun n => ?_, by simp, rfl, by simp, fun _ _ _ => rfl⟩
  simp

theorem Hands.cons {one two : Database} {id : ParticipantId} {m : Participant} (sound : db.Sound)
    (known : given account = some key) (of : m.account = account)
    (stored : db.row? .participant id.number = some m)
    (puts : db.Puts .participant id.number (some { m with contentKey := key }) one)
    (stores : one.StoresKey room epoch account key (one.next .epochKey) two)
    (counted : two.next .epochKey = one.next .epochKey + 1) (hands : Hands room epoch given members fresh two after) :
    Hands room epoch given ((id, account) :: members)
      (⟨⟨db.next .epochKey⟩, room, epoch, account, key⟩ :: fresh) db after := by
  have sound' := puts.continues.sound sound
  have start : one.next .epochKey = db.next .epochKey := puts.next_other (by simp)
  refine ⟨(puts.continues.trans stores.puts.continues).trans hands.continues, fun n => ?_, ?_, ?_, ?_, ?_⟩
  · rw [hands.participants, stores.puts.row?_other (by simp), puts.rows]
    subst of
    by_cases here : n = id.number
    · subst here
      simp [stored, known]
    · simp only [List.map_cons, List.mem_cons, here, false_or, if_false]
  · rw [hands.keys, stores.puts.rows_append sound', rows_congr (contents_congr (puts.others _ (by simp))), start,
      List.append_assoc]
    rfl
  · simp only [List.map_cons, hands.told, known]
  · intro e listed
    rcases List.mem_cons.mp listed with rfl | later
    · exact Nat.le_refl _
    · have bound := hands.late e later
      omega
  · intro k member past
    rw [hands.others k member past, stores.puts.others k past, puts.others k member]

theorem Awaits.hand {two : Database} {id : ParticipantId} {record : EpochKeyId} (sound : db.Sound)
    (awaits : db.Awaits room epoch ((id, account) :: members)) (known : given account = some key)
    (modified : Write.modify operation id (fun m => { m with contentKey := key }) db = (.ok (), two))
    (created : Write.epochKey operation room epoch account key two = (.ok record, mid)) :
    mid.Sound ∧ mid.Awaits room epoch members ∧ ∀ fresh after, Hands room epoch given members fresh mid after →
      Hands room epoch given ((id, account) :: members) (⟨record, room, epoch, account, key⟩ :: fresh) db after := by
  obtain ⟨m, there, puts⟩ := Write.modify_eq_ok sound modified (fun _ => rfl)
  have sound' := puts.continues.sound sound
  obtain ⟨q, there', -, of⟩ := awaits.names.each (id, account) (List.mem_cons_self ..)
  cases there.symm.trans there'
  -- Nobody has been given a key of the epoch, so a record is made for it.
  have absent : two.pastKey? room epoch account = none := by
    rw [puts.pastKey?_other (by simp)]
    exact awaits.keyless account (List.mem_cons_self ..)
  obtain ⟨rfl, stores, counted⟩ := Write.epochKey_creates sound' absent created
  refine ⟨stores.puts.continues.sound sound', awaits.rekeyed sound' there puts stores, fun fresh after hands => ?_⟩
  rw [puts.next_other (by simp)]
  exact hands.cons sound known of there puts stores counted

end Database

namespace Room

def rotated (p : RotateKey) (epoch : UInt32) (r : Room) : Room :=
  if r.id = p.room then { r with roomKey := p.newRoomKey, epoch := epoch } else r

theorem number_rotated (r : Room) : Stored.number (r.rotated p epoch) = Stored.number r := by
  unfold rotated
  split <;> rfl

end Room

namespace Participant

def rotated (p : RotateKey) (m : Participant) : Participant :=
  if m.room = p.room then { m with contentKey := (p.participantKeys.get? m.account).getD m.contentKey } else m

theorem number_rotated (m : Participant) : Stored.number (m.rotated p) = Stored.number m := by
  unfold rotated
  split <;> rfl

@[simp] theorem room_rotated (m : Participant) : (m.rotated p).room = m.room := by
  unfold rotated
  split <;> rfl

@[simp] theorem account_rotated (m : Participant) : (m.rotated p).account = m.account := by
  unfold rotated
  split <;> rfl

end Participant

namespace Database

-- The room has gone on to an epoch, of which `fresh` are the keys.
structure Rotates (db : Database) (p : RotateKey) (epoch : UInt32) (fresh : List EpochKey) (after : Database) :
    Prop where
  grown : ∃ room ∈ db.rows .room, room.id = p.room ∧ epoch.toNat = room.epoch.toNat + 1
  rooms : after.rows .room = (db.rows .room).map (Room.rotated p epoch)
  given : ∀ m ∈ after.rows .participant, m.room = p.room → p.participantKeys.get? m.account = some m.contentKey
  participants : after.rows .participant = (db.rows .participant).map (Participant.rotated p)
  keys : after.rows .epochKey = db.rows .epochKey ++ fresh
  told : fresh.map (fun e => (e.room, e.epoch, e.account, e.contentKey)) =
    ((after.rows .participant).filter fun m => m.room = p.room).map fun m => (p.room, epoch, m.account, m.contentKey)
  current : (after.rows .epochKey).filter (fun e => e.room = p.room ∧ e.epoch = epoch) = fresh
  late : ∀ e ∈ fresh, db.next .epochKey ≤ e.id.number
  others : ∀ k ∉ [Kind.room, .participant, .epochKey, .balance, .supply], after.rows k = db.rows k

theorem Rotates.congr {fresh : List EpochKey} (rotates : db.Rotates p epoch fresh mid)
    (same : ∀ k ∉ [Kind.balance, .supply], after.rows k = mid.rows k) : db.Rotates p epoch fresh after := by
  obtain ⟨grown, rooms, given, participants, keys, told, current, late, others⟩ := rotates
  rw [← same .room (by simp)] at rooms
  rw [← same .participant (by simp)] at given participants told
  rw [← same .epochKey (by simp)] at keys current
  refine ⟨grown, rooms, given, participants, keys, told, current, late, fun k unlisted => ?_⟩
  have unpaid : k ∉ [Kind.balance, .supply] :=
    fun money => unlisted (List.mem_append_right [Kind.room, .participant, .epochKey] money)
  rw [same k unpaid, others k unlisted]

theorem Rotatable.given (rotatable : db.Rotatable p) {m : Participant} (listed : m ∈ db.rows .participant)
    (inside : m.room = p.room) : p.participantKeys.get? m.account = some (m.rotated p).contentKey := by
  obtain ⟨key, known⟩ := (p.participantKeys.mem_keys_iff m.account).mp
    ((rotatable.keys m.account).mpr ⟨m, listed, inside, rfl⟩)
  rw [Participant.rotated, if_pos inside, known]
  rfl

theorem Hands.rows_participant {one : Database} {fresh : List EpochKey} (sound : db.Sound) (sound' : after.Sound)
    (same : ∀ n, one.row? .participant n = db.row? .participant n)
    (hands : Hands p.room epoch p.participantKeys.get?
      ((db.participantsOf p.room).map fun m => (m.id, m.account)) fresh one after) :
    after.rows .participant = (db.rows .participant).map (Participant.rotated p) := by
  refine rows_map sound sound' Participant.number_rotated fun n => ?_
  rw [hands.participants, same]
  refine Option.map_congr fun m stored => ?_
  have inside : n ∈ ((db.participantsOf p.room).map fun m => (m.id, m.account)).map (fun member => member.1.number) ↔
      m.room = p.room := by
    rw [List.map_map]
    exact mem_numbers_iff sound (fun q => mem_participantsOf sound) stored
  simp only [inside, Participant.rotated]

theorem Hands.told_eq {one : Database} {fresh : List EpochKey} (sound : db.Sound) (rotatable : db.Rotatable p)
    (rows : after.rows .participant = (db.rows .participant).map (Participant.rotated p))
    (hands : Hands p.room epoch p.participantKeys.get?
      ((db.participantsOf p.room).map fun m => (m.id, m.account)) fresh one after) :
    fresh.map (fun e => (e.room, e.epoch, e.account, e.contentKey)) =
      ((after.rows .participant).filter fun m => m.room = p.room).map
        fun m => (p.room, epoch, m.account, m.contentKey) := by
  have injective : Function.Injective fun told : RoomId × UInt32 × AccountId × String =>
      (told.1, told.2.1, told.2.2.1, some told.2.2.2) := by
    rintro ⟨a, b, c, d⟩ ⟨a', b', c', d'⟩ same
    cases same
    rfl
  refine List.map_injective_iff.mpr injective ?_
  rw [List.map_map, List.map_map, rows, List.filter_map, List.map_map]
  simp only [Function.comp_def, Participant.room_rotated, Participant.account_rotated, ← participantsOf_eq sound]
  refine hands.told.trans ?_
  rw [List.map_map]
  refine List.map_congr_left fun m present => ?_
  obtain ⟨stored, inside⟩ := (mem_participantsOf sound).mp present
  simp only [Function.comp_def, rotatable.given (mem_rows_iff.mpr ⟨_, stored⟩) inside]

theorem Dated.keyless (dated : db.Dated) {r : Room} (stored : db.row? .room room.number = some r)
    (late : r.epoch < epoch) (account : AccountId) : db.pastKey? room epoch account = none := by
  refine Option.not_isSome_iff_eq_none.mp fun given => ?_
  obtain ⟨current, now, early⟩ := dated room epoch account given
  rw [epoch?, stored] at now
  cases now
  exact absurd late (UInt32.not_lt.mpr early)

theorem Dated.filter_epoch (dated : db.Dated) (sound : db.Sound) {r : Room}
    (stored : db.row? .room room.number = some r) (late : r.epoch < epoch) :
    (db.rows .epochKey).filter (fun e => e.room = room ∧ e.epoch = epoch) = [] := by
  refine List.filter_eq_nil_iff.mpr fun e listed => ?_
  rw [decide_eq_true_eq]
  intro given
  obtain ⟨rfl, rfl⟩ := given
  obtain ⟨n, kept⟩ := mem_rows_iff.mp listed
  have none := dated.keyless stored late e.account
  rw [pastKey?_eq_some sound kept] at none
  cases none

theorem rotates_of_hands {one : Database} {r : Room} {fresh : List EpochKey} (sound : db.Sound) (dated : db.Dated)
    (rotatable : db.Rotatable p) (stored : db.row? .room p.room.number = some r) (spare : r.epoch ≠ 0xffffffff)
    (puts : db.Puts .room p.room.number (some { r with roomKey := p.newRoomKey, epoch := r.epoch + 1 }) one)
    (hands : Hands p.room (r.epoch + 1) p.participantKeys.get?
      ((db.participantsOf p.room).map fun m => (m.id, m.account)) fresh one after) :
    db.Rotates p (r.epoch + 1) fresh after := by
  have sound₁ := puts.continues.sound sound
  have sound' := hands.continues.sound sound₁
  have place : r.id = p.room := congrArg RecordId.mk (sound.numbered stored)
  have members := hands.rows_participant sound sound' (puts.row?_other (by simp))
  have told := hands.told_eq sound rotatable members
  have keys := hands.keys
  rw [rows_congr (contents_congr (puts.others .epochKey (by simp)))] at keys
  refine ⟨⟨r, mem_rows_iff.mpr ⟨_, stored⟩, place, epoch_next spare⟩, ?_, ?_, members, keys, told, ?_, ?_, ?_⟩
  · rw [rows_congr (contents_congr (hands.others .room (by simp) (by simp)))]
    have turned : { r with roomKey := p.newRoomKey, epoch := r.epoch + 1 } = r.rotated p (r.epoch + 1) :=
      (if_pos place).symm
    rw [turned] at puts
    refine puts.rows_map sound stored Room.number_rotated fun n other beside elsewhere => if_neg fun same => ?_
    exact elsewhere ((sound.numbered beside).symm.trans (congrArg RecordId.number same))
  · intro m listed inside
    rw [members, List.mem_map] at listed
    obtain ⟨q, before, rfl⟩ := listed
    rw [Participant.account_rotated]
    exact rotatable.given before (q.room_rotated.symm.trans inside)
  -- No key was of an epoch to come, so those of the new epoch are the new ones.
  · rw [keys, List.filter_append, dated.filter_epoch sound stored (epoch_lt_next spare), List.nil_append]
    refine List.filter_eq_self.mpr fun e listed => ?_
    rw [decide_eq_true_eq]
    have given := List.mem_map_of_mem (f := fun e : EpochKey => (e.room, e.epoch, e.account, e.contentKey)) listed
    rw [told] at given
    obtain ⟨m, -, same⟩ := List.mem_map.mp given
    simp only [Prod.mk.injEq] at same
    exact ⟨same.1.symm, same.2.1.symm⟩
  · intro e listed
    rw [← puts.next_other (by simp)]
    exact hands.late e listed
  · intro k unlisted
    simp only [List.mem_cons, List.not_mem_nil, or_false, not_or] at unlisted
    rw [rows_congr (contents_congr (hands.others k unlisted.2.1 unlisted.2.2.1)),
      rows_congr (contents_congr (puts.others k unlisted.1))]

end Database

namespace Rule

theorem rotateKey_hands (sound : c.db.Sound) (dated : c.db.Dated) (examined : rotateKey.examine c p = .ok plan)
    (run : rotateKey.carryOut time plan p c.db = (.ok outcome, after)) :
    ∃ (one : Database) (r : Room) (fresh : List EpochKey), c.db.row? .room p.room.number = some r ∧
      r.epoch ≠ 0xffffffff ∧
      c.db.Puts .room p.room.number (some { r with roomKey := p.newRoomKey, epoch := r.epoch + 1 }) one ∧
      Hands p.room (r.epoch + 1) p.participantKeys.get?
        ((c.db.participantsOf p.room).map fun m => (m.id, m.account)) fresh one after ∧
      outcome = .touched ⟨.ofList (fresh.map fun e => e.id.id),
        .ofList (p.room.id :: (c.db.participantsOf p.room).map fun m => m.id.id), .empty⟩ := by
  obtain ⟨r, ⟨stored, -⟩, ⟨next, spare⟩, listed, -⟩ := rotateKey_planned examined
  obtain ⟨_, one, modified, run⟩ := bind_eq_ok run
  obtain ⟨_, there, puts⟩ := Write.modify_eq_ok sound modified (fun _ => rfl)
  cases stored.symm.trans there
  obtain ⟨ids, last, handed, left⟩ := bind_eq_ok run
  cases left
  have sound' := puts.continues.sound sound
  have awaits : one.Awaits p.room plan.epoch plan.members := by
    refine ⟨rotateKey_names sound examined puts, ?_, fun account _ => ?_⟩
    · rw [listed, List.map_map]
      exact nodup_accounts sound p.room
    · rw [puts.pastKey?_other (by simp), next]
      exact dated.keyless stored (epoch_lt_next spare) account
  -- Along the loop the members that are left still wait for their keys.
  have loop := mapM_eq_ok (fun members ids db after => db.Awaits p.room plan.epoch members →
      ∃ fresh, fresh.map EpochKey.id = ids ∧ Hands p.room plan.epoch p.participantKeys.get? members fresh db after)
    (fun db sound _ => ⟨[], rfl, .nil sound⟩) ?_ sound' handed awaits
  · obtain ⟨fresh, rfl, hands⟩ := loop
    rw [next, listed] at hands
    refine ⟨one, r, fresh, stored, spare, next ▸ puts, hands, ?_⟩
    rw [listed, List.map_map, List.map_map]
    rfl
  · rintro ⟨id, account⟩ answer rest answers db mid after sound first later awaits
    dsimp only at first
    cases known : p.participantKeys.get? account with
    | none => rw [known] at first; cases first
    | some key =>
      rw [known] at first
      obtain ⟨_, two, modified, created⟩ := bind_eq_ok first
      obtain ⟨left, awaits, hands⟩ := awaits.hand sound known modified created
      obtain ⟨fresh, rfl, handed⟩ := later left awaits
      exact ⟨_, rfl, hands fresh after handed⟩

theorem rotateKey_rotates (sound : c.db.Sound) (dated : c.db.Dated) (examined : rotateKey.examine c p = .ok plan)
    (run : rotateKey.carryOut time plan p c.db = (.ok outcome, after)) :
    ∃ epoch fresh, c.db.Rotates p epoch fresh after ∧
      outcome = .touched ⟨.ofList (fresh.map fun e => e.id.id),
        .ofList (p.room.id :: ((c.db.rows .participant).filter fun m => m.room = p.room).map fun m => m.id.id),
        .empty⟩ := by
  obtain ⟨one, r, fresh, stored, spare, puts, hands, answered⟩ := rotateKey_hands sound dated examined run
  rw [participantsOf_eq sound] at answered
  have rotatable := (rotateKey_examine_iff sound).mp ⟨plan, examined⟩
  exact ⟨_, fresh, rotates_of_hands sound dated rotatable stored spare puts hands, answered⟩

end Rule

namespace Chain

variable {ω : Type} {first last : Chain ω} {config : Config} {genesis : Genesis} {observers : List ω}
  {answers : List (Except ChainError Unit)}

-- What `created` lists are the new keys, and what `updated` lists are the room and its participants.
theorem rotations_are_exact [Observer ω] (started : start config genesis observers = .ok first)
    (run : Run first answers last) (reaches : last.Reaches db) (p : RotateKey) (time : Timestamp)
    (results : List Outcome) :
    ∃ fee, db.feeOf? (.rotateKey p) = some fee ∧
      ((∃ outcome after, (Operation.rotateKey p).perform config time results db = (.ok outcome, after)) ↔
        (Operation.rotateKey p).validate = .ok () ∧ db.Affords fee (.rotateKey p) ∧ db.Rotatable p) ∧
      ∀ outcome after, (Operation.rotateKey p).perform config time results db = (.ok outcome, after) →
        db.Pays p.owner fee after ∧ ∃ epoch fresh, db.Rotates p epoch fresh after ∧
          outcome = .touched {
            created := .ofList (fresh.map fun e => e.id.id)
            updated := .ofList (p.room.id ::
              ((db.rows .participant).filter fun m => m.room = p.room).map fun m => m.id.id)
            removed := .empty } := by
  have standing := reached_standing started run reaches
  have sound := standing.grounded.sound
  obtain ⟨fee, scheduled⟩ := standing.feeOf? (.rotateKey p)
  refine ⟨fee, scheduled, ?_, fun outcome after performed => ?_⟩
  · rw [Operation.perform_accepts_iff standing scheduled]
    exact and_congr_right fun _ => and_congr_right fun _ => Rule.rotateKey_examine_iff sound
  · obtain ⟨plan, mid, examined, carried, pays, same⟩ :=
      (Operation.performed_at_fee performed scheduled).pays standing (fun transfers => nomatch transfers)
    obtain ⟨epoch, fresh, rotates, answered⟩ :=
      Rule.rotateKey_rotates sound (reached_dated started run reaches) examined carried
    exact ⟨pays, epoch, fresh, rotates.congr same, answered⟩

def turnKeys : RotateKey := ⟨.core 1000000, ⟨2⟩, ⟨0⟩, "k2", .ofList [(⟨2⟩, "k2"), (⟨3⟩, "c2")]⟩

theorem rotations_are_exact_turned :
    start .permissive funded [Watcher.idle] = .ok founded ∧ Run founded [.ok (), .ok (), .ok ()] turned ∧
    turned.Reaches turned.db.push ∧ turned.db.push.feeOf? (.rotateKey turnKeys) = some 1000000 ∧
    turned.db.push.Rotatable turnKeys ∧
    ∃ outcome after, (Operation.rotateKey turnKeys).perform .permissive ⟨7⟩ [] turned.db.push = (.ok outcome, after) ∧
      turned.db.push.Pays ⟨2⟩ 1000000 after ∧
      ∃ epoch fresh, turned.db.push.Rotates turnKeys epoch fresh after ∧
        after.rows .epochKey = (turned.db.push.rows .epochKey ++
          [⟨⟨4⟩, ⟨0⟩, 2, ⟨2⟩, "k2"⟩, ⟨⟨5⟩, ⟨0⟩, 2, ⟨3⟩, "c2"⟩] : List EpochKey) := by
  have examined : turned.Examined ⟨7⟩ turned.db.push [] := .alone
  have reaches : turned.Reaches turned.db.push := .examined examined
  obtain ⟨fee, scheduled, accepts, rotates⟩ := rotations_are_exact founded_started turned_run reaches turnKeys ⟨7⟩ []
  have turns : ((Operation.rotateKey turnKeys).perform .permissive ⟨7⟩ [] turned.db.push).1.toOption.isSome := by
    decide +kernel
  have keys : ((Operation.rotateKey turnKeys).perform .permissive ⟨7⟩ [] turned.db.push).2.rows .epochKey =
      (turned.db.push.rows .epochKey ++ [⟨⟨4⟩, ⟨0⟩, 2, ⟨2⟩, "k2"⟩, ⟨⟨5⟩, ⟨0⟩, 2, ⟨3⟩, "c2"⟩] : List EpochKey) := by
    decide +kernel
  have charged : turned.db.push.feeOf? (.rotateKey turnKeys) = some 1000000 := by decide +kernel
  cases scheduled.symm.trans charged
  obtain ⟨outcome, performed⟩ := eq_ok_of_isSome turns
  obtain ⟨pays, epoch, fresh, rotated, -⟩ := rotates outcome _ performed
  exact ⟨founded_started, turned_run, reaches, charged, (accepts.mp ⟨outcome, _, performed⟩).2.2, outcome, _,
    performed, pays, epoch, fresh, rotated, keys⟩

end Chain

end RoomLedger
