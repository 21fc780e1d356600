import RoomLedger.Proofs.OrderlyRules
import RoomLedger.Proofs.RoomKeys

namespace RoomLedger

open Database Change

def Kind.housing : (k : Kind) → k.Row → Option RoomId
  | room, r => some r.id
  | participant, p => some p.room
  | epochKey, e => some e.room
  | _, _ => none

namespace Database

variable {db mid after : Database} {k : Kind} {n : Nat} {room : RoomId} {owner : AccountId}

def OwnedBy (db : Database) (room : RoomId) (owner : AccountId) : Prop :=
  ∃ r ∈ db.rows .room, r.id = room ∧ r.owner = owner

theorem ownedBy_iff (sound : db.Sound) :
    db.OwnedBy room owner ↔ ∃ r : Room, db.row? .room room.number = some r ∧ r.owner = owner := by
  constructor
  · rintro ⟨r, listed, rfl, same⟩
    exact ⟨r, (mem_rows sound).mp listed, same⟩
  · rintro ⟨r, stored, same⟩
    exact ⟨r, mem_rows_iff.mpr ⟨_, stored⟩, congrArg RecordId.mk (sound.numbered stored), same⟩

theorem OwnedBy.unique (sound : db.Sound) {other : AccountId} (one : db.OwnedBy room owner)
    (two : db.OwnedBy room other) : owner = other := by
  obtain ⟨r, stored, rfl⟩ := (ownedBy_iff sound).mp one
  obtain ⟨s, stored', rfl⟩ := (ownedBy_iff sound).mp two
  rw [stored] at stored'
  cases stored'
  rfl

theorem OwnedBy.bounded (sound : db.Sound) (owned : db.OwnedBy room owner) : room.number < db.next .room := by
  obtain ⟨r, stored, -⟩ := (ownedBy_iff sound).mp owned
  exact sound.bounded stored

-- Whatever is of another room is as it was.
def Confined (db : Database) (room : RoomId) (after : Database) : Prop :=
  ∀ k n (row : k.Row) other, k.housing row = some other → other ≠ room →
    (after.row? k n = some row ↔ db.row? k n = some row)

theorem Confined.trans (first : db.Confined room mid) (second : mid.Confined room after) :
    db.Confined room after :=
  fun k n row other housed apart => (second k n row other housed apart).trans (first k n row other housed apart)

theorem confined_of_rows (same : ∀ k (row : k.Row) other, k.housing row = some other →
    ∀ n, after.row? k n = db.row? k n) : db.Confined room after :=
  fun k n row other housed _ => by rw [same k row other housed]

theorem Puts.confined {held : Option k.Row} (puts : db.Puts k n held after)
    (before : ∀ row, db.row? k n = some row → ∀ other, k.housing row = some other → other = room)
    (now : ∀ row, held = some row → ∀ other, k.housing row = some other → other = room) :
    db.Confined room after := by
  intro j m row other housed apart
  by_cases kind : j = k
  · subst kind
    rw [puts.rows]
    split
    · rename_i here
      subst here
      constructor
      · exact fun held => absurd (now row held other housed) apart
      · exact fun stored => absurd (before row stored other housed) apart
    · rfl
  · rw [puts.row?_other kind]

theorem StoresKey.confined {epoch : UInt32} {account : AccountId} {key : String}
    (stores : db.StoresKey room epoch account key n after) : db.Confined room after := by
  refine stores.puts.confined (fun e stored other housed => ?_) (fun e same other housed => ?_)
  · cases housed
    exact (stores.before e stored).1
  · cases same
    cases housed
    rfl

theorem StoresKeys.confined {account : AccountId} {keys : List (UInt32 × String)}
    (stores : StoresKeys room account keys db after) : db.Confined room after := by
  induction stores with
  | nil => exact fun _ _ _ _ _ _ => .rfl
  | cons stores _ ih => exact stores.confined.trans ih

theorem Puts.confined_member {p q : Participant} (puts : db.Puts .participant n (some q) after)
    (stored : db.row? .participant n = some p) (inside : p.room = room) (stays : q.room = room) :
    db.Confined room after := by
  refine puts.confined (fun r there other housed => ?_) (fun r same other housed => ?_)
  · rw [stored] at there
    cases there
    cases housed
    exact inside
  · cases same
    cases housed
    exact stays

theorem Rekeys.confined {epoch : UInt32} {given : AccountId → Option String}
    {members : List (ParticipantId × AccountId)} (rekeys : Rekeys room epoch given members db after)
    (names : db.Names room members) : db.Confined room after := by
  induction rekeys with
  | nil => exact fun _ _ _ _ _ _ => .rfl
  | cons known stored puts stores later ih =>
    obtain ⟨q, there, inside, -⟩ := names.each _ (List.mem_cons_self ..)
    rw [stored] at there
    cases there
    exact ((puts.confined_member stored inside inside).trans stores.confined).trans
      (ih (names.rekeyed stored puts stores))

-- Everything of a room may be different, but its owner is not.
structure Within (db : Database) (room : RoomId) (owner : AccountId) (after : Database) : Prop where
  confined : db.Confined room after
  before : ∀ a, db.OwnedBy room a → a = owner
  after : ∀ a, after.OwnedBy room a → a = owner
  known : room.number < db.next .room → db.OwnedBy room owner

theorem Within.later (within : db.Within room owner mid) (sound : mid.Sound) (sound' : after.Sound)
    (confined : mid.Confined room after) (same : ∀ n, after.row? .room n = mid.row? .room n) :
    db.Within room owner after := by
  refine ⟨within.confined.trans confined, within.before, fun a owned => ?_, within.known⟩
  refine within.after a ((ownedBy_iff sound).mpr ?_)
  obtain ⟨r, stored, owns⟩ := (ownedBy_iff sound').mp owned
  rw [same] at stored
  exact ⟨r, stored, owns⟩

-- Nothing of any room is different, so the room may be one that is yet to be.
theorem within_of_rows (sound : db.Sound) (sound' : after.Sound)
    (same : ∀ k (row : k.Row) other, k.housing row = some other → ∀ n, after.row? k n = db.row? k n) :
    db.Within ⟨db.next .room⟩ owner after := by
  have none : ∀ {a}, ¬ db.OwnedBy ⟨db.next .room⟩ a := fun owned => Nat.lt_irrefl _ (owned.bounded sound)
  have here : db.Within ⟨db.next .room⟩ owner db :=
    ⟨fun _ _ _ _ _ _ => .rfl, fun _ owned => absurd owned none, fun _ owned => absurd owned none,
      fun beyond => absurd beyond (Nat.lt_irrefl _)⟩
  exact here.later sound sound' (confined_of_rows same) (same .room Stored.blank _ rfl)

theorem within_of_owned (sound : db.Sound) (sound' : after.Sound) (confined : db.Confined room after)
    {r : Room} (stored : db.row? .room room.number = some r) (owns : r.owner = owner)
    (stays : ∀ s : Room, after.row? .room room.number = some s → s.owner = owner) :
    db.Within room owner after := by
  have owned : db.OwnedBy room owner := (ownedBy_iff sound).mpr ⟨r, stored, owns⟩
  refine ⟨confined, fun a other => other.unique sound owned, fun a other => ?_, fun _ => owned⟩
  obtain ⟨s, stored', rfl⟩ := (ownedBy_iff sound').mp other
  exact stays s stored'

theorem Puts.confined_room {r : Option Room} (sound : db.Sound) (puts : db.Puts .room room.number r after)
    (same : ∀ s, r = some s → s.id = room) : db.Confined room after := by
  refine puts.confined (fun s stored other housed => ?_) (fun s held other housed => ?_)
  · cases housed
    exact congrArg RecordId.mk (sound.numbered stored)
  · cases housed
    exact same s held

end Database

variable {c : Context} {after : Database} {time : Timestamp} {outcome : Outcome}

namespace Rule

theorem createRoom_within (sound : c.db.Sound) {p : CreateRoom} {plan : createRoom.Plan}
    (run : createRoom.carryOut time plan p c.db = (.ok outcome, after)) :
    c.db.Within ⟨c.db.next .room⟩ p.owner after := by
  obtain ⟨n, m, l, one, two, rfl, first, fresh, second, third⟩ := createRoom_steps sound run
  have sound₁ := first.continues.sound sound
  have sound₂ := second.continues.sound sound₁
  have here : c.db.Within ⟨c.db.next .room⟩ p.owner one := by
    refine ⟨?_, fun a owned => absurd (owned.bounded sound) (Nat.lt_irrefl _), fun a owned => ?_,
      fun beyond => absurd beyond (Nat.lt_irrefl _)⟩
    · refine first.confined_room sound fun s same => ?_
      cases same
      rfl
    · obtain ⟨r, stored, rfl⟩ := (ownedBy_iff sound₁).mp owned
      rw [first.rows, if_pos rfl] at stored
      cases stored
      rfl
  refine here.later sound₁ (third.puts.continues.sound sound₂) ?_ fun m => ?_
  · refine (second.confined (fun q stored => ?_) fun q same other housed => ?_).trans third.confined
    · rw [fresh] at stored
      cases stored
    · cases same
      cases housed
      rfl
  · rw [third.puts.row?_other (by simp), second.row?_other (by simp)]

theorem updateRoom_within (sound : c.db.Sound) {p : UpdateRoom} {plan : updateRoom.Plan}
    (examined : updateRoom.examine c p = .ok plan)
    (run : updateRoom.carryOut time plan p c.db = (.ok outcome, after)) :
    c.db.Within p.room p.owner after := by
  obtain ⟨room, owned, -⟩ := exists_of_bind_eq_ok examined
  obtain ⟨stored, owner⟩ := Context.ownedRoom_eq_ok owned
  obtain ⟨r, there, puts⟩ := updateRoom_steps sound run
  rw [stored] at there
  cases there
  refine within_of_owned sound (puts.continues.sound sound) (puts.confined_room sound fun s same => ?_) stored
    owner fun s stored' => ?_
  · cases same
    exact congrArg RecordId.mk (sound.numbered stored)
  · rw [puts.rows, if_pos rfl] at stored'
    cases stored'
    exact owner

theorem addParticipant_within (sound : c.db.Sound) {p : AddParticipant} {epoch : addParticipant.Plan}
    (examined : addParticipant.examine c p = .ok epoch)
    (run : addParticipant.carryOut time epoch p c.db = (.ok outcome, after)) :
    c.db.Within p.room p.owner after := by
  obtain ⟨room, stored, owner, -⟩ := addParticipant_planned examined
  obtain ⟨m, l, one, two, fresh, first, second, third⟩ := addParticipant_steps sound run
  have sound' := third.sound (second.puts.continues.sound (first.continues.sound sound))
  have here : c.db.Confined p.room one := by
    refine first.confined (fun q stored => ?_) fun q same other housed => ?_
    · rw [fresh] at stored
      cases stored
    · cases same
      cases housed
      rfl
  refine within_of_owned sound sound' ((here.trans second.confined).trans third.confined) stored owner
    fun s stored' => ?_
  rw [row?_congr (third.tables (by simp)), second.puts.row?_other (by simp), first.row?_other (by simp),
    stored] at stored'
  cases stored'
  exact owner

theorem removeParticipant_within (sound : c.db.Sound) {p : RemoveParticipant} {plan : removeParticipant.Plan}
    (examined : removeParticipant.examine c p = .ok plan)
    (run : removeParticipant.carryOut time plan p c.db = (.ok outcome, after)) :
    ∃ member : Participant, c.db.row? .participant p.membership.number = some member ∧
      c.db.Within member.room p.owner after := by
  obtain ⟨member, room, there, stored, owner, -⟩ := removeParticipant_planned examined
  obtain ⟨-, puts⟩ := removeParticipant_steps sound run
  refine ⟨member, there, within_of_owned sound (puts.continues.sound sound) ?_ stored owner fun s stored' => ?_⟩
  · refine puts.confined (fun q stored other housed => ?_) fun q same => nomatch same
    rw [there] at stored
    cases stored
    cases housed
    rfl
  · rw [puts.row?_other (by simp), stored] at stored'
    cases stored'
    exact owner

theorem rotateKey_names (sound : c.db.Sound) {p : RotateKey} {plan : Rotation}
    (examined : rotateKey.examine c p = .ok plan) {one : Database} {n : Nat} {held : Option Room}
    (puts : c.db.Puts .room n held one) : one.Names p.room plan.members := by
  obtain ⟨room, -, -, listed, -⟩ := rotateKey_planned examined
  rw [listed]
  exact (names_participantsOf sound p.room).congr (puts.row?_other (by simp))

theorem rotateKey_within (sound : c.db.Sound) {p : RotateKey} {plan : Rotation}
    (examined : rotateKey.examine c p = .ok plan)
    (run : rotateKey.carryOut time plan p c.db = (.ok outcome, after)) :
    c.db.Within p.room p.owner after := by
  obtain ⟨room, ⟨stored, owner⟩, -⟩ := rotateKey_planned examined
  obtain ⟨r, one, there, puts, rekeys⟩ := rotateKey_steps sound run
  rw [stored] at there
  cases there
  have names := rotateKey_names sound examined puts
  refine within_of_owned sound (rekeys.sound (puts.continues.sound sound))
    ((puts.confined_room sound fun s same => ?_).trans (rekeys.confined names)) stored owner fun s stored' => ?_
  · cases same
    exact congrArg RecordId.mk (sound.numbered stored)
  · rw [row?_congr (rekeys.tables (by simp) (by simp)), puts.rows, if_pos rfl] at stored'
    cases stored'
    exact owner

theorem deleteRoom_within (sound : c.db.Sound) {p : DeleteRoom} {plan : Belongings}
    (examined : deleteRoom.examine c p = .ok plan)
    (run : deleteRoom.carryOut time plan p c.db = (.ok outcome, after)) :
    c.db.Within p.room p.owner after := by
  obtain ⟨⟨room, stored, owner⟩, -⟩ := deleteRoom_planned examined
  have vacates := deleteRoom_vacates sound examined run
  refine within_of_owned sound (vacates.continues.sound sound) ?_ stored owner fun s stored' => ?_
  · intro k n row other housed apart
    cases k with
    | room =>
      cases housed
      rw [vacates.rooms]
      split
      · rename_i here
        subst here
        constructor
        · exact fun gone => nomatch gone
        · exact fun stored' => absurd (congrArg RecordId.mk (sound.numbered stored')) apart
      · rfl
    | participant =>
      cases housed
      rw [vacates.participants, and_iff_left apart]
    | epochKey =>
      cases housed
      rw [vacates.keys, and_iff_left apart]
    | _ => cases housed
  · rw [vacates.rooms, if_pos rfl] at stored'
    cases stored'

end Rule

namespace Operation

theorem carryOut_within (sound : c.db.Sound) {op : Operation} {plan : op.Plan} (examined : op.examine c = .ok plan)
    (run : op.carryOut time plan c.db = (.ok outcome, after)) : ∃ room, c.db.Within room op.payer after := by
  have edited := (carryOut_edits op time plan).edited run
  have sound' := (edited.continues sound).sound sound
  have elsewhere (unwritten : ∀ k ∈ [Kind.room, .participant, .epochKey], k ∉ op.kind.written) :
      ∃ room, c.db.Within room op.payer after := by
    refine ⟨_, within_of_rows sound sound' fun k row other housed n => row?_congr (edited.tables ?_) n⟩
    refine unwritten k ?_
    cases k <;> first | decide | cases housed
  cases op with
  | createRoom p => exact ⟨_, Rule.createRoom_within sound run⟩
  | updateRoom p => exact ⟨_, Rule.updateRoom_within sound examined run⟩
  | addParticipant p => exact ⟨_, Rule.addParticipant_within sound examined run⟩
  | removeParticipant p =>
    obtain ⟨member, -, within⟩ := Rule.removeParticipant_within sound examined run
    exact ⟨_, within⟩
  | rotateKey p => exact ⟨_, Rule.rotateKey_within sound examined run⟩
  | deleteRoom p => exact ⟨_, Rule.deleteRoom_within sound examined run⟩
  | _ => exact elsewhere (by simp only [kind]; decide)

theorem Performed.within {op : Operation} (performed : op.Performed c outcome after) (sound : c.db.Sound) :
    ∃ room, c.db.Within room op.payer after := by
  obtain ⟨plan, mid, examined, -, carried, charged⟩ := performed.stages sound
  have sound' := carryOut_sound sound carried
  have same : ∀ k (row : k.Row) other, k.housing row = some other → ∀ n, after.row? k n = mid.row? k n := by
    intro k row other housed n
    refine charge_keeps charged ?_ n
    cases k <;> first | decide | cases housed
  obtain ⟨room, within⟩ := carryOut_within sound examined carried
  exact ⟨room, within.later sound' (performed.sound sound) (confined_of_rows same)
    (same .room Stored.blank _ rfl)⟩

end Operation

end RoomLedger
