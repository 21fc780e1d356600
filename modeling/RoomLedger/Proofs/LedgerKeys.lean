import RoomLedger.Proofs.RecordLookups

namespace RoomLedger

variable {db : Database} {k : Kind}

theorem RecordId.part_inj {r s : RecordId k} : r.part = s.part ↔ r = s := by
  obtain ⟨m⟩ := r
  obtain ⟨n⟩ := s
  simp [RecordId.part, RecordId.id, Kind.id]

theorem epochPart_inj {a b : UInt32} : epochPart a = epochPart b ↔ a = b := by
  simp [epochPart, UInt32.toNat_inj]

namespace Table

theorem collides_account {a b : Kind.account.Row} : Collides a b ↔ a.name = b.name := by
  constructor
  · intro given
    obtain ⟨index, declared, -, same⟩ := given
    cases List.mem_singleton.mp declared
    simpa using same
  · intro same
    exact ⟨_, List.mem_singleton.mpr rfl, rfl, by simp [same]⟩

theorem collides_eventGroup {a b : Kind.eventGroup.Row} :
    Collides a b ↔ a.sport = b.sport ∧ a.id = b.id := by
  constructor
  · intro given
    obtain ⟨index, declared, -, same⟩ := given
    cases List.mem_singleton.mp declared
    simpa [RecordId.part_inj] using same
  · intro given
    obtain ⟨sport, id⟩ := given
    exact ⟨_, List.mem_singleton.mpr rfl, rfl, by simp [sport, id]⟩

theorem collides_room {a b : Kind.room.Row} : Collides a b ↔ a.owner = b.owner ∧ a.name = b.name := by
  constructor
  · intro given
    obtain ⟨index, declared, unique, same⟩ := given
    rcases List.mem_cons.mp declared with rfl | declared
    · cases unique
    · cases List.mem_singleton.mp declared
      simpa [RecordId.part_inj] using same
  · intro given
    obtain ⟨owner, name⟩ := given
    exact ⟨_, List.mem_cons_of_mem _ (List.mem_singleton.mpr rfl), rfl, by simp [owner, name]⟩

theorem collides_participant {a b : Kind.participant.Row} :
    Collides a b ↔ a.room = b.room ∧ a.account = b.account := by
  constructor
  · intro given
    obtain ⟨index, declared, unique, same⟩ := given
    rcases List.mem_cons.mp declared with rfl | declared
    · cases unique
    rcases List.mem_cons.mp declared with rfl | declared
    · cases unique
    · cases List.mem_singleton.mp declared
      simpa [RecordId.part_inj] using same
  · intro given
    obtain ⟨room, account⟩ := given
    exact ⟨_, List.mem_cons_of_mem _ (List.mem_cons_of_mem _ (List.mem_singleton.mpr rfl)), rfl,
      by simp [room, account]⟩

theorem collides_epochKey {a b : Kind.epochKey.Row} :
    Collides a b ↔ a.room = b.room ∧ a.epoch = b.epoch ∧ a.account = b.account := by
  constructor
  · intro given
    obtain ⟨index, declared, unique, same⟩ := given
    rcases List.mem_cons.mp declared with rfl | declared
    · cases unique
    rcases List.mem_cons.mp declared with rfl | declared
    · simpa [RecordId.part_inj, epochPart_inj] using same
    · cases List.mem_singleton.mp declared
      cases unique
  · intro given
    obtain ⟨room, epoch, account⟩ := given
    exact ⟨_, List.mem_cons_of_mem _ (List.mem_cons_self ..), rfl, by simp [room, epoch, account]⟩

theorem collides_balance {a b : Kind.balance.Row} :
    Collides a b ↔ a.owner = b.owner ∧ a.asset = b.asset := by
  constructor
  · intro given
    obtain ⟨index, declared, -, same⟩ := given
    cases List.mem_singleton.mp declared
    simpa [RecordId.part_inj] using same
  · intro given
    obtain ⟨owner, asset⟩ := given
    exact ⟨_, List.mem_singleton.mpr rfl, rfl, by simp [owner, asset]⟩

theorem not_collides_of_unlisted {a b : k.Row} (unlisted : Stored.indices (α := k.Row) = []) :
    ¬ Collides a b := by
  intro given
  obtain ⟨index, declared, -⟩ := given
  rw [unlisted] at declared
  cases declared

end Table

namespace Table

theorem account_by_name : Declared (α := Kind.account.Row) "by_name"
    ⟨"by_name", true, fun r => [.text (Account.name r)]⟩ := rfl

theorem eventGroup_by_sport : Declared (α := Kind.eventGroup.Row) "by_sport"
    ⟨"by_sport", true, fun r => [(EventGroup.sport r).part, (EventGroup.id r).part]⟩ := rfl

theorem room_by_name : Declared (α := Kind.room.Row) "by_name"
    ⟨"by_name", true, fun r => [(Room.owner r).part, .text (Room.name r)]⟩ := rfl

theorem participant_by_room : Declared (α := Kind.participant.Row) "by_room"
    ⟨"by_room", false, fun r => [(Participant.room r).part]⟩ := rfl

theorem participant_by_room_and_participant : Declared (α := Kind.participant.Row)
    "by_room_and_participant" ⟨"by_room_and_participant", true,
      fun r => [(Participant.room r).part, (Participant.account r).part]⟩ := rfl

theorem epochKey_by_room_and_epoch : Declared (α := Kind.epochKey.Row) "by_room_and_epoch"
    ⟨"by_room_and_epoch", false, fun r => [(EpochKey.room r).part, epochPart (EpochKey.epoch r)]⟩ := rfl

theorem epochKey_by_room_epoch_participant : Declared (α := Kind.epochKey.Row)
    "by_room_epoch_participant" ⟨"by_room_epoch_participant", true,
      fun r => [(EpochKey.room r).part, epochPart (EpochKey.epoch r), (EpochKey.account r).part]⟩ := rfl

theorem balance_by_account_asset : Declared (α := Kind.balance.Row) "by_account_asset"
    ⟨"by_account_asset", true, fun r => [(Balance.owner r).part, (Balance.asset r).part]⟩ := rfl

end Table

namespace Database

open Table

theorem accountNamed?_eq_none (sound : db.Sound) {name : String} (free : db.accountNamed? name = none)
    {n : Nat} {a : Account} (stored : db.row? .account n = some a) : a.name ≠ name := by
  intro same
  obtain rfl := same
  exact (found_spec sound account_by_name _).2 free n a stored rfl

theorem roomNamed?_eq_none (sound : db.Sound) {owner : AccountId} {name : String}
    (free : db.roomNamed? owner name = none) {n : Nat} {r : Room} (stored : db.row? .room n = some r) :
    ¬ (r.owner = owner ∧ r.name = name) := by
  intro given
  obtain ⟨rfl, rfl⟩ := given
  exact (found_spec sound room_by_name _).2 free n r stored rfl

theorem participantIn?_eq_none (sound : db.Sound) {room : RoomId} {account : AccountId}
    (free : db.participantIn? room account = none) {n : Nat} {p : Participant}
    (stored : db.row? .participant n = some p) : ¬ (p.room = room ∧ p.account = account) := by
  intro given
  obtain ⟨rfl, rfl⟩ := given
  exact (found_spec sound participant_by_room_and_participant _).2 free n p stored rfl

theorem epochKey?_eq_none (sound : db.Sound) {room : RoomId} {epoch : UInt32} {account : AccountId}
    (free : db.epochKey? room epoch account = none) {n : Nat} {e : EpochKey}
    (stored : db.row? .epochKey n = some e) :
    ¬ (e.room = room ∧ e.epoch = epoch ∧ e.account = account) := by
  intro given
  obtain ⟨rfl, rfl, rfl⟩ := given
  exact (found_spec sound epochKey_by_room_epoch_participant _).2 free n e stored rfl

theorem epochKey?_eq_some (sound : db.Sound) {room : RoomId} {epoch : UInt32} {account : AccountId}
    {e : EpochKey} (found : db.epochKey? room epoch account = some e) :
    db.row? .epochKey e.id.number = some e :=
  ((found_spec sound epochKey_by_room_epoch_participant _).1 e found).1

theorem balance?_eq_none (sound : db.Sound) {owner : AccountId} {asset : AssetId}
    (free : db.balance? owner asset = none) {n : Nat} {b : Balance} (stored : db.row? .balance n = some b) :
    ¬ (b.owner = owner ∧ b.asset = asset) := by
  intro given
  obtain ⟨rfl, rfl⟩ := given
  exact (found_spec sound balance_by_account_asset _).2 free n b stored rfl

theorem balance?_eq_some (sound : db.Sound) {owner : AccountId} {asset : AssetId} {b : Balance}
    (found : db.balance? owner asset = some b) :
    db.row? .balance b.id.number = some b ∧ b.owner = owner ∧ b.asset = asset := by
  obtain ⟨stored, key⟩ := (found_spec sound balance_by_account_asset _).1 b found
  simp only [List.cons.injEq, RecordId.part_inj, and_true] at key
  exact ⟨stored, key⟩

theorem mem_participantsOf (sound : db.Sound) {room : RoomId} {p : Participant} :
    p ∈ db.participantsOf room ↔ db.row? .participant p.id.number = some p ∧ p.room = room := by
  have member := (listed_withKey_spec sound participant_by_room [room.part]).2 p
  simp only [List.cons.injEq, RecordId.part_inj, and_true] at member
  exact member

theorem nodup_participantsOf (sound : db.Sound) (room : RoomId) :
    ((db.participantsOf room).map fun p => p.id.number).Nodup :=
  (listed_withKey_spec sound participant_by_room [room.part]).1

theorem mem_keysOf (sound : db.Sound) {room : RoomId} {e : EpochKey} :
    e ∈ db.keysOf room ↔ db.row? .epochKey e.id.number = some e ∧ e.room = room := by
  have member := (listed_startingWith_spec sound epochKey_by_room_and_epoch [room.part]).2 e
  simp only [List.isPrefixOf_cons_cons, List.isPrefixOf_nil_left, Bool.and_true, beq_iff_eq,
    RecordId.part_inj] at member
  rw [eq_comm (a := e.room)]
  exact member

theorem nodup_keysOf (sound : db.Sound) (room : RoomId) :
    ((db.keysOf room).map fun e => e.id.number).Nodup :=
  (listed_startingWith_spec sound epochKey_by_room_and_epoch [room.part]).1

end Database

end RoomLedger
