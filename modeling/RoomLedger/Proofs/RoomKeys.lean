import RoomLedger.Proofs.ContentReads
import RoomLedger.Proofs.WriteSteps

namespace RoomLedger

theorem epoch_next {epoch : UInt32} (spare : epoch ≠ 0xffffffff) : (epoch + 1).toNat = epoch.toNat + 1 := by
  have below : epoch.toNat ≠ 4294967295 := fun same => spare (UInt32.toNat_inj.mp same)
  have bound := epoch.toNat_lt
  rw [UInt32.toNat_add]
  change (epoch.toNat + 1) % 4294967296 = _
  omega

theorem epoch_le_next_iff {epoch e : UInt32} (spare : epoch ≠ 0xffffffff) :
    e ≤ epoch + 1 ↔ e = epoch + 1 ∨ e ≤ epoch := by
  rw [UInt32.le_iff_toNat_le, UInt32.le_iff_toNat_le, ← UInt32.toNat_inj, epoch_next spare]
  omega

theorem epoch_lt_next {epoch : UInt32} (spare : epoch ≠ 0xffffffff) : epoch < epoch + 1 := by
  rw [UInt32.lt_iff_toNat_lt, epoch_next spare]
  omega

-- Every member has the key of the current epoch as it was handed out, none was handed out for an
-- epoch to come, and the owner has been given every key there was.
structure KeysInStep (r : Room) (members : AccountId → Option String)
    (keys : UInt32 → AccountId → Option String) : Prop where
  owner : members r.owner = some r.roomKey
  current : ∀ account key, members account = some key → keys r.epoch account = some key
  past : ∀ epoch account key, keys epoch account = some key → epoch ≤ r.epoch
  owned : ∀ epoch, epoch ≤ r.epoch → ∃ key, keys epoch r.owner = some key

namespace KeysInStep

variable {r : Room} {members members' : AccountId → Option String}
  {keys keys' : UInt32 → AccountId → Option String} {account : AccountId} {key : String}

theorem created (fresh : r.epoch = 0)
    (member : ∀ a, members a = if a = r.owner then some r.roomKey else none)
    (kept : ∀ e a, keys e a = if e = 0 ∧ a = r.owner then some r.roomKey else none) :
    KeysInStep r members keys := by
  refine ⟨by rw [member, if_pos rfl], ?_, ?_, ?_⟩
  · intro a key given
    rw [member] at given
    split at given
    · rename_i same
      rw [kept, if_pos ⟨fresh, same⟩]
      exact given
    · cases given
  · intro e a key given
    rw [kept] at given
    split at given
    · rename_i same
      rw [same.1, fresh]
      exact UInt32.le_refl 0
    · cases given
  · intro e early
    rw [fresh] at early
    obtain rfl : e = 0 := UInt32.le_zero_iff.mp early
    exact ⟨_, by rw [kept, if_pos ⟨rfl, rfl⟩]⟩

-- What is handed out to a new member does not touch the keys of others.
theorem added (inStep : KeysInStep r members keys) (absent : members account = none) (past : List UInt32)
    (early : ∀ e ∈ past, e < r.epoch)
    (member : ∀ a, members' a = if a = account then some key else members a)
    (given : keys' r.epoch account = some key)
    (kept : ∀ e a, ¬ (a = account ∧ (e = r.epoch ∨ e ∈ past)) → keys' e a = keys e a) :
    KeysInStep r members' keys' := by
  have other : r.owner ≠ account := by
    intro same
    have held := inStep.owner
    rw [same, absent] at held
    cases held
  refine ⟨by rw [member, if_neg other]; exact inStep.owner, ?_, ?_, ?_⟩
  · intro a held stored
    rw [member] at stored
    split at stored
    · rename_i same
      rw [same, given]
      exact stored
    · rename_i apart
      rw [kept _ _ fun both => apart both.1]
      exact inStep.current a held stored
  · intro e a held stored
    by_cases handed : a = account ∧ (e = r.epoch ∨ e ∈ past)
    · rcases handed.2 with rfl | listed
      · exact UInt32.le_refl _
      · exact UInt32.le_of_lt (early e listed)
    · rw [kept e a handed] at stored
      exact inStep.past e a held stored
  · intro e reached
    rw [kept e _ fun both => other both.1]
    exact inStep.owned e reached

theorem removed (inStep : KeysInStep r members keys) (other : account ≠ r.owner)
    (member : ∀ a, members' a = if a = account then none else members a) : KeysInStep r members' keys := by
  refine ⟨by rw [member, if_neg (Ne.symm other)]; exact inStep.owner, ?_, inStep.past, inStep.owned⟩
  intro a key stored
  rw [member] at stored
  split at stored
  · cases stored
  · exact inStep.current a key stored

theorem rotated (inStep : KeysInStep r members keys) (spare : r.epoch ≠ 0xffffffff)
    {given : AccountId → Option String} (own : given r.owner = some key)
    (member : ∀ a, members' a = if (members a).isSome then given a else none)
    (kept : ∀ e a, keys' e a = if e = r.epoch + 1 ∧ (members a).isSome then given a else keys e a) :
    KeysInStep { r with roomKey := key, epoch := r.epoch + 1 } members' keys' := by
  have held : (members r.owner).isSome := by rw [inStep.owner]; rfl
  have before : ∀ e : UInt32, e ≤ r.epoch + 1 ↔ e = r.epoch + 1 ∨ e ≤ r.epoch :=
    fun e => epoch_le_next_iff spare
  refine ⟨?_, ?_, ?_, ?_⟩
  · change members' r.owner = some key
    rw [member, if_pos held, own]
  · intro a held stored
    rw [member] at stored
    split at stored
    · rename_i inside
      change keys' (r.epoch + 1) a = some held
      rw [kept, if_pos ⟨rfl, inside⟩]
      exact stored
    · cases stored
  · intro e a held stored
    rw [kept] at stored
    split at stored
    · rename_i handed
      exact (before e).mpr (.inl handed.1)
    · exact (before e).mpr (.inr (inStep.past e a held stored))
  · intro e reached
    change ∃ k, keys' e r.owner = some k
    rw [kept]
    split
    · exact ⟨key, own⟩
    · rename_i apart
      rcases (before e).mp reached with rfl | early
      · exact absurd ⟨rfl, held⟩ apart
      · exact inStep.owned e early

theorem renamed (inStep : KeysInStep r members keys) (name : String) :
    KeysInStep { r with name := name } members keys :=
  ⟨inStep.owner, inStep.current, inStep.past, inStep.owned⟩

end KeysInStep

namespace Database

variable {db mid after : Database} {room other : RoomId} {epoch : UInt32} {account : AccountId} {key : String}
  {n : Nat}

def memberKey? (db : Database) (room : RoomId) (account : AccountId) : Option String :=
  (db.participantIn? room account).map Participant.contentKey

def pastKey? (db : Database) (room : RoomId) (epoch : UInt32) (account : AccountId) : Option String :=
  (db.epochKey? room epoch account).map EpochKey.contentKey

theorem memberKey?_congr (same : after.contents.get .participant = db.contents.get .participant) :
    after.memberKey? = db.memberKey? := by
  funext room account
  rw [memberKey?, memberKey?, participantIn?_congr same]

theorem pastKey?_congr (same : after.contents.get .epochKey = db.contents.get .epochKey) :
    after.pastKey? = db.pastKey? := by
  funext room epoch account
  rw [pastKey?, pastKey?, epochKey?_congr same]

theorem Puts.memberKey?_other {k : Kind} {held : Option k.Row} (puts : db.Puts k n held after)
    (other : .participant ≠ k) : after.memberKey? = db.memberKey? :=
  memberKey?_congr (contents_congr (puts.others _ other))

theorem Puts.pastKey?_other {k : Kind} {held : Option k.Row} (puts : db.Puts k n held after)
    (other : .epochKey ≠ k) : after.pastKey? = db.pastKey? :=
  pastKey?_congr (contents_congr (puts.others _ other))

theorem memberKey?_isSome_iff (sound : db.Sound) : (db.memberKey? room account).isSome ↔
    ∃ p ∈ db.participantsOf room, p.account = account := by
  rw [memberKey?, Option.isSome_map, Option.isSome_iff_exists]
  simp only [participantIn?_eq_some_iff sound, mem_participantsOf sound, and_assoc]

theorem memberKey?_eq_some (sound : db.Sound) {p : Participant} (stored : db.row? .participant n = some p) :
    db.memberKey? p.room p.account = some p.contentKey := by
  have number : p.id.number = n := sound.numbered stored
  have found : db.participantIn? p.room p.account = some p :=
    (participantIn?_eq_some_iff sound).mpr ⟨by rw [number]; exact stored, rfl, rfl⟩
  rw [memberKey?, found]
  rfl

theorem pastKey?_eq_some (sound : db.Sound) {e : EpochKey} (stored : db.row? .epochKey n = some e) :
    db.pastKey? e.room e.epoch e.account = some e.contentKey := by
  have number : e.id.number = n := sound.numbered stored
  have found : db.epochKey? e.room e.epoch e.account = some e :=
    (epochKey?_eq_some_iff sound).mpr ⟨by rw [number]; exact stored, rfl, rfl, rfl⟩
  rw [pastKey?, found]
  rfl

-- A membership is written at a place of its own, or where it was.
theorem Puts.memberKey? (sound : db.Sound) {held : Option Participant} (puts : db.Puts .participant n held after)
    (room : RoomId) (account : AccountId)
    (before : ∀ p : Participant, db.row? .participant n = some p → p.room = room ∧ p.account = account)
    (now : ∀ p, held = some p → p.room = room ∧ p.account = account)
    (taken : (∃ p, db.row? .participant n = some p) ∨ ∃ p, held = some p) (inside : RoomId) (of : AccountId) :
    after.memberKey? inside of =
      if inside = room ∧ of = account then held.map Participant.contentKey else db.memberKey? inside of := by
  have own : ∀ p : Participant, p.room = room ∧ p.account = account →
      [p.room.part, p.account.part] = [room.part, account.part] := by
    rintro p ⟨rfl, rfl⟩
    rfl
  have found := found_puts sound Table.participant_by_room_and_participant rfl puts
    [room.part, account.part] (fun p stored => own p (before p stored)) (fun p same => own p (now p same))
    taken [inside.part, of.part]
  simp only [List.cons.injEq, RecordId.part_inj, and_true] at found
  rw [Database.memberKey?, Database.memberKey?, participantIn?, participantIn?, found]
  split <;> rfl

theorem StoresKey.pastKey? (sound : db.Sound) (stores : db.StoresKey room epoch account key n after)
    (inside : RoomId) (of : UInt32) (who : AccountId) :
    after.pastKey? inside of who =
      if inside = room ∧ of = epoch ∧ who = account then some key else db.pastKey? inside of who := by
  have own : ∀ e : EpochKey, e.room = room ∧ e.epoch = epoch ∧ e.account = account →
      [e.room.part, epochPart e.epoch, e.account.part] = [room.part, epochPart epoch, account.part] := by
    rintro e ⟨rfl, rfl, rfl⟩
    rfl
  have found := found_puts sound Table.epochKey_by_room_epoch_participant rfl stores.puts
    [room.part, epochPart epoch, account.part] (fun e stored => own e (stores.before e stored))
    (fun e same => by cases same; rfl) (.inr ⟨_, rfl⟩) [inside.part, epochPart of, who.part]
  simp only [List.cons.injEq, RecordId.part_inj, epochPart_inj, and_true] at found
  rw [Database.pastKey?, Database.pastKey?, epochKey?, epochKey?, found]
  split <;> rfl

theorem StoresKeys.pastKey?_other {keys : List (UInt32 × String)} (sound : db.Sound)
    (stores : StoresKeys room account keys db after) {inside : RoomId} {of : UInt32} {who : AccountId}
    (apart : ¬ (inside = room ∧ who = account ∧ of ∈ keys.map Prod.fst)) :
    after.pastKey? inside of who = db.pastKey? inside of who := by
  induction stores with
  | nil => rfl
  | cons stores _ ih =>
    rw [ih (stores.puts.continues.sound sound) fun both => apart ⟨both.1, both.2.1, List.mem_cons_of_mem _ both.2.2⟩,
      stores.pastKey? sound, if_neg]
    rintro ⟨rfl, rfl, rfl⟩
    exact apart ⟨rfl, rfl, List.mem_cons_self ..⟩

theorem StoresKeys.tables {keys : List (UInt32 × String)} {k : Kind}
    (stores : StoresKeys room account keys db after) (other : k ≠ .epochKey) :
    after.tables.get k = db.tables.get k := by
  induction stores with
  | nil => rfl
  | cons stores _ ih => exact ih.trans (stores.puts.others k other)

theorem StoresKeys.sound {keys : List (UInt32 × String)} (stores : StoresKeys room account keys db after)
    (sound : db.Sound) : after.Sound := by
  induction stores with
  | nil => exact sound
  | cons stores _ ih => exact ih (stores.puts.continues.sound sound)

theorem Rekeys.sound {given : AccountId → Option String} {members : List (ParticipantId × AccountId)}
    (rekeys : Rekeys room epoch given members db after) (sound : db.Sound) : after.Sound := by
  induction rekeys with
  | nil => exact sound
  | cons _ _ puts stores _ ih => exact ih (stores.puts.continues.sound (puts.continues.sound sound))

theorem Rekeys.tables {given : AccountId → Option String} {members : List (ParticipantId × AccountId)} {k : Kind}
    (rekeys : Rekeys room epoch given members db after) (other : k ≠ .participant) (apart : k ≠ .epochKey) :
    after.tables.get k = db.tables.get k := by
  induction rekeys with
  | nil => rfl
  | cons _ _ puts stores _ ih => exact ih.trans ((stores.puts.others k apart).trans (puts.others k other))

-- The members that are named are members of the room still while they get their keys.
structure Names (db : Database) (room : RoomId) (members : List (ParticipantId × AccountId)) : Prop where
  each : ∀ member ∈ members, ∃ p : Participant, db.row? .participant member.1.number = some p ∧
    p.room = room ∧ p.account = member.2

theorem names_participantsOf (sound : db.Sound) (room : RoomId) :
    db.Names room ((db.participantsOf room).map fun m => (m.id, m.account)) := by
  refine ⟨fun member listed => ?_⟩
  obtain ⟨q, present, rfl⟩ := List.mem_map.mp listed
  obtain ⟨stored, inside⟩ := (mem_participantsOf sound).mp present
  exact ⟨q, stored, inside, rfl⟩

theorem Names.congr {members : List (ParticipantId × AccountId)} (names : db.Names room members)
    (same : ∀ n, after.row? .participant n = db.row? .participant n) : after.Names room members := by
  refine ⟨fun member listed => ?_⟩
  obtain ⟨q, stored, inside⟩ := names.each member listed
  exact ⟨q, by rw [same]; exact stored, inside⟩

theorem Names.rekeyed {one : Database} {id : ParticipantId} {rest : List (ParticipantId × AccountId)}
    {p : Participant} {key : String} (names : db.Names room ((id, account) :: rest))
    (stored : db.row? .participant id.number = some p)
    (puts : db.Puts .participant id.number (some { p with contentKey := key }) one)
    (stores : one.StoresKey room epoch account key n after) : after.Names room rest := by
  refine ⟨fun member listed => ?_⟩
  obtain ⟨q, there, inside, of⟩ := names.each member (List.mem_cons_of_mem _ listed)
  rw [stores.puts.row?_other (by simp), puts.rows]
  split
  · rename_i same
    rw [same, stored] at there
    cases there
    exact ⟨_, rfl, inside, of⟩
  · exact ⟨q, there, inside, of⟩

theorem rekeys_keys {given : AccountId → Option String} {members : List (ParticipantId × AccountId)}
    (sound : db.Sound) (rekeys : Rekeys room epoch given members db after) (names : db.Names room members) :
    (∀ inside who, after.memberKey? inside who =
      if inside = room ∧ who ∈ members.map Prod.snd then given who else db.memberKey? inside who) ∧
    ∀ inside of who, after.pastKey? inside of who =
      if inside = room ∧ of = epoch ∧ who ∈ members.map Prod.snd then given who
      else db.pastKey? inside of who := by
  induction rekeys with
  | nil => simp
  | @cons db one two after id account key p rest n known stored puts stores later ih =>
    obtain ⟨q, there, inside, of⟩ := names.each (id, account) (List.mem_cons_self ..)
    dsimp only at there of
    rw [stored] at there
    cases there
    have sound₁ := puts.continues.sound sound
    have sound₂ := stores.puts.continues.sound sound₁
    have names := names.rekeyed stored puts stores
    have member := puts.memberKey? sound room account
      (fun q there => by rw [stored] at there; cases there; exact ⟨inside, of⟩)
      (fun q same => by cases same; exact ⟨inside, of⟩) (.inr ⟨_, rfl⟩)
    obtain ⟨members, past⟩ := ih sound₂ names
    refine ⟨fun a b => ?_, fun a e b => ?_⟩
    · rw [members, stores.puts.memberKey?_other (by simp), member]
      grind
    · rw [past, stores.pastKey? sound₁, puts.pastKey?_other (by simp)]
      grind

end Database

end RoomLedger
