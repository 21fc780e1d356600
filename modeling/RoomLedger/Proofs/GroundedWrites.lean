import RoomLedger.Proofs.LedgerKeys
import RoomLedger.Proofs.RuleWrites

namespace RoomLedger

variable {α β : Type} {kinds : List Kind} {db after : Database} {k : Kind} {n : Nat}

namespace Database

-- A room that is yet to be made has nobody in it, so its owner can always be put there.
structure Grounded (db : Database) : Prop where
  sound : db.Sound
  complete : db.Complete
  housed : ∀ n (p : Participant), db.row? .participant n = some p → p.room.number < db.next .room

theorem Continues.complete (continues : db.Continues after) (complete : db.Complete) : after.Complete := by
  intro k
  have related := continues.tables k
  have there := complete k
  generalize db.tables.get k = a at related there
  generalize after.tables.get k = b at related
  cases related with
  | none => cases there
  | some _ => rfl

theorem Grounded.puts (grounded : db.Grounded) {held : Option k.Row} (puts : db.Puts k n held after)
    (grown : db.next k ≤ after.next k) (other : k ≠ .participant) : after.Grounded := by
  refine ⟨puts.continues.sound grounded.sound, puts.continues.complete grounded.complete, ?_⟩
  intro m p stored
  rw [row?_congr (puts.others _ (Ne.symm other))] at stored
  have before := grounded.housed m p stored
  by_cases same : k = .room
  · subst same
    omega
  · rwa [next_congr (puts.others _ (Ne.symm same))]

theorem Grounded.puts_participant (grounded : db.Grounded) {held : Option Participant}
    (puts : db.Puts .participant n held after)
    (housed : ∀ p, held = some p → p.room.number < db.next .room) : after.Grounded := by
  refine ⟨puts.continues.sound grounded.sound, puts.continues.complete grounded.complete, ?_⟩
  intro m p stored
  rw [puts.next_other (by simp)]
  rw [puts.rows] at stored
  split at stored
  · exact housed p stored
  · exact grounded.housed m p stored

theorem Grounded.removed (grounded : db.Grounded) (puts : db.Puts k n none after)
    (next : after.next k = db.next k) : after.Grounded := by
  by_cases participant : k = .participant
  · subst participant
    exact grounded.puts_participant puts fun _ impossible => nomatch impossible
  · exact grounded.puts puts (Nat.le_of_eq next.symm) participant

-- A record that keeps its unique keys is in nobody's way.
theorem free_of_kept_keys (sound : db.Sound) {row next : k.Row} (stored : db.row? k n = some row)
    (kept : ∀ other, Table.Collides next other → Table.Collides row other) :
    ∀ m other, db.row? k m = some other → Table.Collides next other → m = n :=
  fun _ _ beside collides => sound.distinct beside stored (kept _ collides).symm

end Database

namespace Write

open Database Change

variable {fill change : k.Row → k.Row} {row : k.Row}

theorem create_ends (grounded : db.Grounded) (operation : String)
    (free : ∀ m other, db.row? k m = some other →
      ¬ Table.Collides (Stored.withNumber (fill Stored.blank) (db.next k)) other) :
    (Write.create operation k fill).Ends db fun row after =>
      row = Stored.withNumber (fill Stored.blank) (db.next k) ∧
        db.Puts k (db.next k) (some row) after ∧ after.next k = db.next k + 1 := by
  obtain ⟨row, after, run⟩ := create_succeeds grounded.sound grounded.complete fill free
  exact Ends.adapt _ ⟨row, after, run, create_eq_ok grounded.sound run⟩

theorem modify_ends (sound : db.Sound) (operation : String) (id : RecordId k)
    (stored : db.row? k id.number = some row)
    (free : ∀ m other, db.row? k m = some other →
      Table.Collides (Stored.withNumber (change row) id.number) other → m = id.number) :
    (Write.modify operation id change).Ends db fun _ after =>
      db.Puts k id.number (some (Stored.withNumber (change row) id.number)) after ∧
        after.next k = db.next k := by
  obtain ⟨after, run⟩ := modify_succeeds sound stored change free
  obtain ⟨found, same, puts, next⟩ := modify_eq_ok sound run
  rw [stored] at same
  cases same
  exact Ends.adapt _ ⟨(), after, run, puts, next⟩

theorem remove_ends (sound : db.Sound) (operation : String) (id : RecordId k)
    (stored : db.row? k id.number = some row) :
    (Write.remove operation id).Ends db fun _ after =>
      db.Puts k id.number none after ∧ after.next k = db.next k := by
  obtain ⟨after, run⟩ := remove_succeeds stored
  obtain ⟨-, puts, next⟩ := remove_eq_ok sound run
  exact (Ends.adapt _ ⟨row, after, run, puts, next⟩).bind fun _ _ holds => pure_ends holds

theorem current_ends {next : Database → Change Breach β} {last : β → Database → Prop}
    (ends : (next db).Ends db last) : (Write.current >>= next).Ends db last := by
  obtain ⟨b, after, run, holds⟩ := ends
  exact ⟨b, after, by rw [bind_apply]; exact run, holds⟩

theorem get_ends {id : ObjectId} {next : k.Row → Change Breach β} {last : β → Database → Prop}
    (operation : String) (found : db.get k id = .ok row) (ends : (next row).Ends db last) :
    (Write.attempt operation (fun db => (db.get k id, db)) >>= next).Ends db last := by
  obtain ⟨b, after, run, holds⟩ := ends
  refine ⟨b, after, ?_, holds⟩
  rw [bind_apply]
  unfold attempt
  rw [adapt_apply, found]
  exact run

-- The key of an epoch is stored over one that is there already, so it can always be stored.
theorem epochKey_ends (grounded : db.Grounded) (operation : String) (room : RoomId) (epoch : UInt32)
    (account : AccountId) (key : String) :
    (Write.epochKey operation room epoch account key).Ends db fun _ after =>
      after.Grounded ∧ ∀ j, j ≠ .epochKey → after.tables.get j = db.tables.get j := by
  apply current_ends
  split
  · rename_i record found
    have stored := epochKey?_eq_some grounded.sound found
    refine (modify_ends grounded.sound operation record.id stored
      (free_of_kept_keys grounded.sound stored fun other collides => ?_)).bind ?_
    · rw [Table.collides_epochKey] at collides ⊢
      exact collides
    · intro _ after given
      obtain ⟨puts, next⟩ := given
      exact pure_ends ⟨grounded.puts puts (Nat.le_of_eq next.symm) (by simp), puts.others⟩
  · rename_i missing
    refine (create_ends grounded operation fun m other stored collides => ?_).bind ?_
    · rw [Table.collides_epochKey] at collides
      obtain ⟨one, two, three⟩ := collides
      exact epochKey?_eq_none grounded.sound missing stored ⟨one.symm, two.symm, three.symm⟩
    · intro row after given
      obtain ⟨-, puts, next⟩ := given
      exact pure_ends ⟨grounded.puts puts (by omega) (by simp), puts.others⟩

theorem removeAll_ends (grounded : db.Grounded) (operation : String) (ids : List (RecordId k))
    (distinct : (ids.map RecordId.number).Nodup)
    (stored : ∀ id ∈ ids, ∃ row, db.row? k id.number = some row) :
    Ends (ids.forM (Write.remove operation)) db fun _ after =>
      after.Grounded ∧ ∀ j, j ≠ k → after.tables.get j = db.tables.get j := by
  -- What is still to be removed is there, and no number comes twice in it.
  let invariant (rest : List (RecordId k)) (now : Database) : Prop :=
    (now.Grounded ∧ ∀ j, j ≠ k → now.tables.get j = db.tables.get j) ∧
      (rest.map RecordId.number).Nodup ∧ ∀ id ∈ rest, ∃ row, now.row? k id.number = some row
  have ends : Ends (ids.forM (Write.remove operation)) db fun _ after => invariant [] after := by
    refine forM_ends invariant ?_ ids ⟨⟨grounded, fun _ _ => rfl⟩, distinct, stored⟩
    intro id rest now given
    obtain ⟨⟨grounded, same⟩, distinct, stored⟩ := given
    obtain ⟨absent, distinct⟩ := List.nodup_cons.mp distinct
    obtain ⟨row, held⟩ := stored id (List.mem_cons_self ..)
    apply (remove_ends grounded.sound operation id held).weaken
    intro _ after given
    obtain ⟨puts, next⟩ := given
    refine ⟨⟨grounded.removed puts next, fun j other => (puts.others j other).trans (same j other)⟩,
      distinct, fun later member => ?_⟩
    have other : later.number ≠ id.number := by
      intro equal
      exact absent (List.mem_map.mpr ⟨later, member, equal⟩)
    rw [puts.rows, if_neg other]
    exact stored later (List.mem_cons_of_mem _ member)
  exact ends.weaken fun _ _ holds => holds.1

end Write

end RoomLedger
