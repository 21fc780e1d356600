import RoomLedger.Proofs.UniqueLookups
import RoomLedger.Proofs.GroundedWrites

namespace RoomLedger

variable {ε δ α β : Type} {db mid after : Database} {k : Kind} {n : Nat} {operation : String}

theorem Kind.withNumber_number (k : Kind) (row : k.Row) :
    Stored.withNumber row (Stored.number row) = row := by
  cases k <;> rfl

namespace Change

theorem adapt_eq_ok {f : ε → δ} {change : Change ε α} {a : α}
    (run : change.adapt f db = (.ok a, after)) : change db = (.ok a, after) := by
  rw [adapt_apply] at run
  obtain ⟨answer, left⟩ := Prod.mk.inj run
  cases made : (change db).1 with
  | error e => rw [made] at answer; cases answer
  | ok b =>
    rw [made] at answer
    cases answer
    exact Prod.ext made left

theorem forM_eq_ok {act : α → Change ε PUnit} (path : List α → Database → Database → Prop)
    (nil : ∀ db : Database, db.Sound → path [] db db)
    (cons : ∀ a rest (db mid after : Database), db.Sound → act a db = (.ok (), mid) →
      (mid.Sound → path rest mid after) → path (a :: rest) db after)
    {list : List α} (sound : db.Sound)
    (run : list.forM act db = (.ok (), after)) : path list db after := by
  induction list generalizing db with
  | nil =>
    cases run
    exact nil _ sound
  | cons a rest ih =>
    obtain ⟨_, mid, first, later⟩ := bind_eq_ok run
    exact cons a rest db mid after sound first fun sound => ih sound later

theorem mapM_eq_ok {act : α → Change ε β} (path : List α → List β → Database → Database → Prop)
    (nil : ∀ db : Database, db.Sound → path [] [] db db)
    (cons : ∀ a b rest answers (db mid after : Database), db.Sound → act a db = (.ok b, mid) →
      (mid.Sound → path rest answers mid after) → path (a :: rest) (b :: answers) db after)
    {list : List α} {answers : List β} (sound : db.Sound)
    (run : list.mapM act db = (.ok answers, after)) : path list answers db after := by
  induction list generalizing db answers with
  | nil =>
    cases run
    exact nil _ sound
  | cons a rest ih =>
    rw [List.mapM_cons] at run
    obtain ⟨b, mid, first, run⟩ := bind_eq_ok run
    obtain ⟨others, _, later, left⟩ := bind_eq_ok run
    cases left
    exact cons a b rest others db mid _ sound first fun sound => ih sound later

end Change

namespace Database

theorem mem_numbers_iff (sound : db.Sound) {listed : List k.Row} {holds : k.Row → Prop}
    (member : ∀ row, row ∈ listed ↔ db.row? k (Stored.number row) = some row ∧ holds row) {row : k.Row}
    (stored : db.row? k n = some row) : n ∈ listed.map Stored.number ↔ holds row := by
  rw [List.mem_map]
  constructor
  · intro given
    obtain ⟨other, present, rfl⟩ := given
    obtain ⟨stored', holds⟩ := (member other).mp present
    cases stored.symm.trans stored'
    exact holds
  · intro holds
    have number : Stored.number row = n := sound.numbered stored
    exact ⟨row, (member row).mpr ⟨number ▸ stored, holds⟩, number⟩

structure Removes (db : Database) (ids : List (RecordId k)) (after : Database) : Prop where
  continues : db.Continues after
  rows : ∀ m, after.row? k m = if m ∈ ids.map RecordId.number then none else db.row? k m
  others : ∀ j, j ≠ k → after.tables.get j = db.tables.get j

theorem Removes.row?_other {ids : List (RecordId k)} {j : Kind} (removes : db.Removes ids after)
    (other : j ≠ k) (m : Nat) : after.row? j m = db.row? j m :=
  row?_congr (removes.others j other) m

theorem Removes.row?_eq_some_iff {ids : List (RecordId k)} (removes : db.Removes ids after)
    (gone : k.Row → Prop)
    (listed : ∀ m row, db.row? k m = some row → (m ∈ ids.map RecordId.number ↔ gone row)) {row : k.Row} :
    after.row? k n = some row ↔ db.row? k n = some row ∧ ¬ gone row := by
  rw [removes.rows]
  constructor
  · intro stored
    split at stored
    · cases stored
    · rename_i stays
      exact ⟨stored, fun given => stays ((listed n row stored).mpr given)⟩
  · intro given
    obtain ⟨stored, stays⟩ := given
    rw [if_neg fun member => stays ((listed n row stored).mp member)]
    exact stored

-- The key of an account and an epoch is put where it was, or at a place of its own.
structure StoresKey (db : Database) (room : RoomId) (epoch : UInt32) (account : AccountId) (key : String)
    (n : Nat) (after : Database) : Prop where
  puts : db.Puts .epochKey n (some ⟨⟨n⟩, room, epoch, account, key⟩) after
  before : ∀ e : EpochKey, db.row? .epochKey n = some e → e.room = room ∧ e.epoch = epoch ∧ e.account = account

inductive StoresKeys (room : RoomId) (account : AccountId) :
    List (UInt32 × String) → Database → Database → Prop where
  | nil {db : Database} : StoresKeys room account [] db db
  | cons {db mid after : Database} {epoch : UInt32} {key : String} {rest : List (UInt32 × String)} {n : Nat}
      (stores : db.StoresKey room epoch account key n mid) (later : StoresKeys room account rest mid after) :
      StoresKeys room account ((epoch, key) :: rest) db after

-- The members of a room get the key of a new epoch, in their own record and in one of the epoch.
inductive Rekeys (room : RoomId) (epoch : UInt32) (given : AccountId → Option String) :
    List (ParticipantId × AccountId) → Database → Database → Prop where
  | nil {db : Database} : Rekeys room epoch given [] db db
  | cons {db one two after : Database} {id : ParticipantId} {account : AccountId} {key : String}
      {p : Participant} {rest : List (ParticipantId × AccountId)} {n : Nat} (known : given account = some key)
      (stored : db.row? .participant id.number = some p)
      (puts : db.Puts .participant id.number (some { p with contentKey := key }) one)
      (stores : one.StoresKey room epoch account key n two) (later : Rekeys room epoch given rest two after) :
      Rekeys room epoch given ((id, account) :: rest) db after

end Database

namespace Write

open Database Change

theorem create_eq_ok (sound : db.Sound) {fill : k.Row → k.Row} {row : k.Row}
    (run : Write.create operation k fill db = (.ok row, after)) :
    row = Stored.withNumber (fill Stored.blank) (db.next k) ∧ db.row? k (db.next k) = none ∧
      db.Puts k (db.next k) (some row) after := by
  obtain ⟨made, puts, -⟩ := Database.create_eq_ok sound (adapt_eq_ok run)
  exact ⟨made, row?_next sound k, puts⟩

theorem modify_eq_ok (sound : db.Sound) {id : RecordId k} {change : k.Row → k.Row}
    (run : Write.modify operation id change db = (.ok (), after))
    (keeps : ∀ row, Stored.number (change row) = Stored.number row) :
    ∃ row, db.row? k id.number = some row ∧ db.Puts k id.number (some (change row)) after := by
  obtain ⟨row, stored, puts, -⟩ := Database.modify_eq_ok sound (adapt_eq_ok run)
  have number : Stored.number (change row) = id.number := (keeps row).trans (sound.numbered stored)
  rw [← number, Kind.withNumber_number, number] at puts
  exact ⟨row, stored, puts⟩

theorem remove_eq_ok (sound : db.Sound) {id : RecordId k}
    (run : Write.remove operation id db = (.ok (), after)) :
    (∃ row, db.row? k id.number = some row) ∧ db.Puts k id.number none after := by
  obtain ⟨row, mid, removed, left⟩ := bind_eq_ok run
  cases left
  obtain ⟨stored, puts, -⟩ := Database.remove_eq_ok sound (adapt_eq_ok removed)
  exact ⟨⟨row, stored⟩, puts⟩

theorem removeAll_eq_ok (sound : db.Sound) {ids : List (RecordId k)}
    (run : ids.forM (Write.remove operation) db = (.ok (), after)) : db.Removes ids after := by
  refine forM_eq_ok (fun ids db after => db.Removes ids after) ?_ ?_ sound run
  · exact fun db sound => ⟨.refl sound, fun m => (if_neg (by simp)).symm, fun _ _ => rfl⟩
  · intro id rest db mid after sound first later
    obtain ⟨-, puts⟩ := remove_eq_ok sound first
    have later := later (puts.continues.sound sound)
    refine ⟨puts.continues.trans later.continues, fun m => ?_,
      fun j other => (later.others j other).trans (puts.others j other)⟩
    rw [later.rows, puts.rows]
    by_cases here : m = id.number <;> simp [here]

theorem epochKey_eq_ok (sound : db.Sound) {room : RoomId} {epoch : UInt32} {account : AccountId}
    {key : String} {id : EpochKeyId}
    (run : Write.epochKey operation room epoch account key db = (.ok id, after)) :
    ∃ n, db.StoresKey room epoch account key n after := by
  obtain ⟨now, here, current, run⟩ := bind_eq_ok run
  cases current
  cases found : db.epochKey? room epoch account with
  | some record =>
    rw [found] at run
    obtain ⟨stored, rfl, rfl, rfl⟩ := (epochKey?_eq_some_iff sound).mp found
    obtain ⟨_, mid, modified, left⟩ := bind_eq_ok run
    cases left
    obtain ⟨row, same, puts⟩ := modify_eq_ok sound modified (fun _ => rfl)
    rw [stored] at same
    cases same
    refine ⟨record.id.number, puts, fun e before => ?_⟩
    rw [stored] at before
    cases before
    exact ⟨rfl, rfl, rfl⟩
  | none =>
    rw [found] at run
    obtain ⟨record, mid, created, left⟩ := bind_eq_ok run
    cases left
    obtain ⟨rfl, fresh, puts⟩ := create_eq_ok sound created
    refine ⟨_, puts, fun e before => ?_⟩
    rw [fresh] at before
    cases before

theorem epochKeys_eq_ok (sound : db.Sound) {room : RoomId} {account : AccountId}
    {keys : List (UInt32 × String)}
    (run : (keys.forM fun past => do
      let _ ← Write.epochKey operation room past.1 account past.2
      : Change Breach Unit) db = (.ok (), after)) : StoresKeys room account keys db after := by
  refine forM_eq_ok (StoresKeys room account) (fun _ _ => .nil) ?_ sound run
  intro past rest db mid after sound first later
  obtain ⟨_, _, stored, left⟩ := bind_eq_ok first
  cases left
  obtain ⟨n, stores⟩ := epochKey_eq_ok sound stored
  exact .cons stores (later (stores.puts.continues.sound sound))

theorem adjust_eq_ok (sound : db.Sound) {owner : AccountId} {asset : AssetId} {delta : Shares}
    (run : Write.adjust operation owner asset delta db = (.ok (), after)) :
    ∃ (n : Nat) (b : Balance), db.Puts .balance n (some b) after ∧ b.owner = owner ∧ b.asset = asset := by
  obtain ⟨now, here, current, run⟩ := bind_eq_ok run
  cases current
  dsimp only at run
  generalize (Shares.addExact? _ _).filter _ = sum at run
  cases sum with
  | none => cases run
  | some amount =>
    cases found : db.balance? owner asset with
    | some balance =>
      rw [found] at run
      obtain ⟨stored, rfl, rfl⟩ := balance?_eq_some sound found
      obtain ⟨row, same, puts⟩ := modify_eq_ok sound run (fun _ => rfl)
      rw [stored] at same
      cases same
      exact ⟨_, _, puts, rfl, rfl⟩
    | none =>
      rw [found] at run
      obtain ⟨row, mid, created, left⟩ := bind_eq_ok run
      cases left
      obtain ⟨rfl, -, puts⟩ := create_eq_ok sound created
      exact ⟨_, _, puts, rfl, rfl⟩

end Write

end RoomLedger
