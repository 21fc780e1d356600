import RoomLedger.Proofs.KeyGrants

namespace RoomLedger

open Database

namespace Database

def Dated (db : Database) : Prop :=
  ∀ room epoch account, (db.pastKey? room epoch account).isSome →
    ∃ current, db.epoch? room = some current ∧ epoch ≤ current

-- An epoch has begun, and an account has no key of it.
structure Denies (db : Database) (room : RoomId) (epoch : UInt32) (account : AccountId) : Prop where
  known : room.number < db.next .room
  begun : ∀ current, db.epoch? room = some current → epoch ≤ current
  keyless : db.pastKey? room epoch account = none

variable {db after : Database} {room : RoomId} {epoch : UInt32} {account : AccountId}

theorem Dated.congr (dated : db.Dated) (rooms : after.contents.get .room = db.contents.get .room)
    (keys : after.contents.get .epochKey = db.contents.get .epochKey) : after.Dated := by
  intro room epoch account given
  rw [pastKey?_congr keys] at given
  rw [epoch?_congr rooms]
  exact dated room epoch account given

theorem Denies.congr (denies : db.Denies room epoch account)
    (rooms : after.contents.get .room = db.contents.get .room)
    (keys : after.contents.get .epochKey = db.contents.get .epochKey) : after.Denies room epoch account := by
  refine ⟨?_, ?_, ?_⟩
  · rw [next_eq_contents, rooms, ← next_eq_contents]
    exact denies.known
  · rw [epoch?_congr rooms]
    exact denies.begun
  · rw [pastKey?_congr keys]
    exact denies.keyless

end Database

namespace Deed

variable {d : Deed} {room : RoomId} {epoch : UInt32} {account : AccountId} {p : AddParticipant}

structure Starts (d : Deed) (room : RoomId) (epoch : UInt32) : Prop where
  before : d.before.epoch? room ≠ some epoch
  after : d.after.epoch? room = some epoch

-- The owner lets an account in while an epoch lasts, or hands out its key along with that of a later one.
structure Gives (d : Deed) (p : AddParticipant) (room : RoomId) (epoch : UInt32) (account : AccountId) : Prop where
  operation : d.operation = .addParticipant p
  whither : p.room = room
  whom : p.participant = account
  owner : d.before.OwnedBy room p.owner
  which : d.before.epoch? room = some epoch ∨ p.epochKeys.contains epoch

inductive Moves (d : Deed) (room : RoomId) : Prop where
  | opened (new : room = ⟨d.before.next .room⟩) (now : d.after.epoch? room = some 0)
  | next (current : UInt32) (was : d.before.epoch? room = some current) (spare : current ≠ 0xffffffff)
      (now : d.after.epoch? room = some (current + 1))
  | gone (p : DeleteRoom) (operation : d.operation = .deleteRoom p) (here : p.room = room)
      (now : d.after.epoch? room = none)
  | stays (same : d.after.epoch? room = d.before.epoch? room)

theorem Lawful.opens (lawful : d.Lawful) {q : CreateRoom} (operation : d.operation = .createRoom q)
    (answer : d.outcome = .object room.id) : room = ⟨d.before.next .room⟩ := by
  rw [(lawful.created q operation).1, Outcome.object.injEq, RecordId.id_inj] at answer
  exact answer.symm

theorem Lawful.unopened (lawful : d.Lawful) : d.before.epoch? ⟨d.before.next .room⟩ = none := by
  rw [Database.epoch?, row?_next lawful.sound]
  rfl

theorem Lawful.moves (lawful : d.Lawful) (room : RoomId) : d.Moves room := by
  have now := lawful.epochs room
  obtain ⟨before, operation, outcome, after⟩ := d
  cases operation with
  | createRoom q =>
    simp only [Deed.epoch?] at now
    split at now
    · rename_i answer
      exact .opened (lawful.opens rfl answer) now
    · exact .stays now
  | rotateKey q =>
    obtain ⟨⟨current, was, spare⟩, -⟩ := lawful.rotated q rfl
    simp only [Deed.epoch?] at now
    split at now
    · rename_i here
      subst here
      rw [was] at now
      exact .next current was spare now
    · exact .stays now
  | deleteRoom q =>
    simp only [Deed.epoch?] at now
    split at now
    · rename_i here
      exact .gone q rfl here.symm now
    · exact .stays now
  | _ => exact .stays now

-- Whoever has a key had it before, was there when its epoch started, or is given it by the owner.
inductive Comes (d : Deed) (room : RoomId) (epoch : UInt32) (account : AccountId) : Prop where
  | held (before : (d.before.pastKey? room epoch account).isSome)
      (stays : ∀ p, d.operation = .deleteRoom p → p.room ≠ room)
  | started (starts : d.Starts room epoch) (inside : (d.after.participantIn? room account).isSome)
  | given (p : AddParticipant) (gives : d.Gives p room epoch account)

theorem Lawful.comes (lawful : d.Lawful) (given : (d.after.pastKey? room epoch account).isSome) :
    d.Comes room epoch account := by
  have now := lawful.epochs room
  have unopened := lawful.unopened
  -- `keys` says which operations hand out a key; whatever they leave alone was held before.
  rw [lawful.keys] at given
  obtain ⟨before, operation, outcome, after⟩ := d
  cases operation with
  | createRoom q =>
    simp only [key?, Deed.epoch?] at given now
    split at given
    · rename_i here
      obtain ⟨answer, rfl, rfl⟩ := here
      rw [if_pos answer] at now
      obtain rfl := lawful.opens rfl answer
      exact .started ⟨by rw [unopened]; exact (Option.some_ne_none 0).symm, now⟩ (lawful.created q rfl).2
    · exact .held given fun _ same => by cases same
  | addParticipant q =>
    obtain ⟨owner, -⟩ := lawful.added q rfl
    simp only [key?] at given
    split at given
    · rename_i here
      obtain ⟨rfl, rfl⟩ := here
      split at given
      · rename_i current
        exact .given q ⟨rfl, rfl, rfl, owner, .inl current⟩
      · rw [Option.isSome_or, Bool.or_eq_true] at given
        rcases given with listed | held
        · exact .given q ⟨rfl, rfl, rfl, owner, .inr listed⟩
        · exact .held held fun _ same => by cases same
    · exact .held given fun _ same => by cases same
  | rotateKey q =>
    obtain ⟨⟨current, was, spare⟩, members⟩ := lawful.rotated q rfl
    simp only [key?, Deed.epoch?] at given now
    split at given
    · rename_i here
      obtain ⟨rfl, started, inside⟩ := here
      refine .started ⟨fun same => ?_, started⟩ (members account inside).2
      rw [if_pos rfl, started, same, Option.map_some, Option.some.injEq] at now
      rw [was] at same
      cases same
      exact absurd (epoch_lt_next spare) (by rw [← now]; exact UInt32.lt_irrefl _)
    · exact .held given fun _ same => by cases same
  | deleteRoom q =>
    simp only [key?] at given
    split at given
    · cases given
    · rename_i apart
      refine .held given fun p same => ?_
      cases same
      exact Ne.symm apart
  | _ => exact .held given fun _ same => by cases same

theorem Gives.stays (gives : d.Gives p room epoch account) (lawful : d.Lawful) :
    d.after.epoch? room = d.before.epoch? room := by
  rw [lawful.epochs]
  simp only [Deed.epoch?, gives.operation]

theorem Lawful.dated (lawful : d.Lawful) (dated : d.before.Dated) : d.after.Dated := by
  intro room epoch account given
  rcases lawful.comes given with ⟨before, stays⟩ | ⟨starts, -⟩ | ⟨p, gives⟩
  · obtain ⟨current, was, reached⟩ := dated room epoch account before
    rcases lawful.moves room with ⟨rfl, -⟩ | ⟨other, held, spare, now⟩ | ⟨p, operation, here, -⟩ | same
    · rw [lawful.unopened] at was
      cases was
    · rw [was] at held
      cases held
      exact ⟨_, now, (epoch_le_next_iff spare).mpr (.inr reached)⟩
    · exact absurd here (stays p operation)
    · exact ⟨current, same.trans was, reached⟩
  · exact ⟨epoch, starts.after, UInt32.le_refl _⟩
  · obtain ⟨-, current, was, early⟩ := lawful.added p gives.operation
    rw [gives.whither] at was
    refine ⟨current, (gives.stays lawful).trans was, ?_⟩
    rcases gives.which with now | listed
    · rw [was] at now
      cases now
      exact UInt32.le_refl _
    · exact UInt32.le_of_lt (early epoch listed)

-- An epoch that starts is later than any before.
theorem Lawful.starts_late (lawful : d.Lawful) (starts : d.Starts room epoch) {current : UInt32}
    (was : d.before.epoch? room = some current) : current < epoch := by
  have now := starts.after
  rcases lawful.moves room with ⟨rfl, -⟩ | ⟨other, held, spare, next⟩ | ⟨_, -, -, gone⟩ | same
  · rw [lawful.unopened] at was
    cases was
  · rw [was] at held
    cases held
    rw [now] at next
    cases next
    exact epoch_lt_next spare
  · rw [gone] at now
    cases now
  · exact absurd (same.symm.trans now) starts.before

theorem Lawful.denies_start (lawful : d.Lawful) (sound : d.after.Sound) (dated : d.before.Dated)
    (starts : d.Starts room epoch) (absent : d.after.participantIn? room account = none) :
    d.after.Denies room epoch account := by
  have now := starts.after
  refine ⟨?_, fun current same => ?_, Option.not_isSome_iff_eq_none.mp fun given => ?_⟩
  · obtain ⟨r, stored, -⟩ := Option.map_eq_some_iff.mp now
    exact sound.bounded stored
  · rw [now] at same
    cases same
    exact UInt32.le_refl _
  · rcases lawful.comes given with ⟨before, -⟩ | ⟨-, inside⟩ | ⟨p, gives⟩
    · obtain ⟨current, was, reached⟩ := dated room epoch account before
      exact absurd (lawful.starts_late starts was) (UInt32.not_lt.mpr reached)
    · rw [absent] at inside
      cases inside
    · exact starts.before ((gives.stays lawful).symm.trans now)

theorem Lawful.denies (lawful : d.Lawful) (grows : d.before.next .room ≤ d.after.next .room)
    (denies : d.before.Denies room epoch account) :
    d.after.Denies room epoch account ∨ ∃ p, d.Gives p room epoch account := by
  have old : room ≠ ⟨d.before.next .room⟩ := fun same =>
    absurd denies.known (by rw [same]; exact Nat.lt_irrefl _)
  by_cases given : ∃ p, d.Gives p room epoch account
  · exact .inr given
  refine .inl ⟨Nat.lt_of_lt_of_le denies.known grows, fun current now => ?_,
    Option.not_isSome_iff_eq_none.mp fun key => ?_⟩
  -- A room that there is cannot be opened again, so its epoch only goes up.
  · rcases lawful.moves room with ⟨new, -⟩ | ⟨other, was, spare, next⟩ | ⟨_, -, -, gone⟩ | same
    · exact absurd new old
    · rw [now] at next
      cases next
      exact (epoch_le_next_iff spare).mpr (.inr (denies.begun _ was))
    · rw [gone] at now
      cases now
    · exact denies.begun current (same.symm.trans now)
  · rcases lawful.comes key with ⟨before, -⟩ | ⟨starts, -⟩ | ⟨p, gives⟩
    · rw [denies.keyless] at before
      cases before
    · rcases lawful.moves room with ⟨new, -⟩ | ⟨other, was, -, -⟩ | ⟨_, -, -, gone⟩ | same
      · exact old new
      · exact absurd (lawful.starts_late starts was) (UInt32.not_lt.mpr (denies.begun _ was))
      · rw [starts.after] at gone
        cases gone
      · exact starts.before (same.symm.trans starts.after)
    · exact given ⟨p, gives⟩

end Deed

namespace Lineage

variable {config : Config} {first db : Database} {deeds : List Deed} {room : RoomId} {epoch : UInt32}
  {account : AccountId}

theorem dated (lineage : Lineage config first deeds db) (founded : first.Sound) (given : first.Dated) : db.Dated := by
  induction lineage with
  | nil => exact given
  | same _ _ same ih => exact ih.congr (same _ (by simp)) (same _ (by simp))
  | perform earlier run ih =>
    obtain ⟨fee, performed⟩ := Operation.perform_eq_ok run
    exact (performed.lawful (earlier.sound founded)).dated ih

-- Who is not there when an epoch starts goes without its key, until the owner hands it out.
theorem denied_or_given (lineage : Lineage config first deeds db) (founded : first.Sound) (given : first.Dated)
    {earlier later : List Deed} {d : Deed} (split : deeds = earlier ++ d :: later) (starts : d.Starts room epoch)
    (absent : d.after.participantIn? room account = none) :
    db.Denies room epoch account ∨ ∃ g ∈ later, ∃ p, g.Gives p room epoch account := by
  induction lineage generalizing later with
  | nil => cases List.append_ne_nil_of_right_ne_nil earlier (List.cons_ne_nil d later) split.symm
  | same _ _ same ih =>
    rcases ih split with denies | given
    · exact .inl (denies.congr (same _ (by simp)) (same _ (by simp)))
    · exact .inr given
  | perform before run ih =>
    obtain ⟨fee, performed⟩ := Operation.perform_eq_ok run
    have sound := before.sound founded
    have lawful := performed.lawful sound
    -- The epoch starts with this very operation, or it had started before it.
    rcases List.eq_nil_or_concat later with rfl | ⟨between, g, rfl⟩
    · obtain ⟨-, same⟩ := List.append_inj' split rfl
      cases same
      exact .inl (lawful.denies_start (performed.sound sound) (before.dated founded given) starts absent)
    · rw [List.concat_eq_append] at split ⊢
      rw [← List.cons_append, ← List.append_assoc] at split
      obtain ⟨same, last⟩ := List.append_inj' split rfl
      cases last
      rcases ih same with denies | ⟨g, listed, gives⟩
      · rcases lawful.denies (performed.edited.grows sound .room) denies with denies | gives
        · exact .inl denies
        · exact .inr ⟨_, List.mem_append_right _ (List.mem_singleton.mpr rfl), gives⟩
      · exact .inr ⟨g, List.mem_append_left _ listed, gives⟩

end Lineage

namespace Chain

variable {ω : Type} {config : Config} {first last : Chain ω} {genesis : Genesis} {observers : List ω}
  {history : List BlockReceipt}

theorem start_dated (started : start config genesis observers = .ok first) : first.db.Dated := by
  obtain ⟨-, populated⟩ := Genesis.apply_populates (start_applies started).1
  have edited := genesis.populate_writes.edited populated
  have keyless : ∀ n, first.db.row? .epochKey n = none := fun n => by
    rw [row?_congr (edited.tables (by decide)), row?_registerAll]
  intro room epoch account given
  obtain ⟨_, found⟩ := Option.isSome_iff_exists.mp given
  obtain ⟨e, found, -⟩ := Option.map_eq_some_iff.mp found
  obtain ⟨stored, -⟩ := (epochKey?_eq_some_iff (start_eq_ok started).1.grounded.sound).mp found
  rw [keyless] at stored
  cases stored

theorem keys_have_provenance [Observer ω] (started : start config genesis observers = .ok first)
    (commits : Commits first history last) :
    (∀ time db results op outcome after, last.Examined time db results →
      op.perform last.config time results db = (.ok outcome, after) →
        (∀ room epoch account, after.pastKey? room epoch account =
          Deed.key? ⟨db, op, outcome, after⟩ room epoch account) ∧
        ∀ p, op = .rotateKey p → ∀ account, (db.participantIn? p.room account).isSome →
          p.participantKeys.contains account) ∧
    ∃ deeds, Lineage config first.db deeds last.db ∧
      deeds.map Deed.entry = (last.receipts history).flatMap BlockReceipt.operations ∧
      ∀ earlier d later room epoch account, deeds = earlier ++ d :: later → d.Starts room epoch →
        d.after.participantIn? room account = none → (last.db.pastKey? room epoch account).isSome →
          ∃ g ∈ later, ∃ p, g.Gives p room epoch account := by
  refine ⟨fun time db results op outcome after examined run => ?_, ?_⟩
  · obtain ⟨answers, path⟩ := commits.run
    have sound := (examined.standing (run_steady (start_steady started).1 path)).grounded.sound
    obtain ⟨fee, performed⟩ := Operation.perform_eq_ok run
    have lawful := performed.lawful sound
    exact ⟨lawful.keys, fun p same account inside => ((lawful.rotated p same).2 account inside).1⟩
  · obtain ⟨deeds, lineage, told⟩ := lineage_of_commits started commits
    refine ⟨deeds, lineage, told, fun earlier d later room epoch account split starts absent given => ?_⟩
    have founded := (start_eq_ok started).1.grounded.sound
    rcases lineage.denied_or_given founded (start_dated started) split starts absent with denies | gives
    · rw [denies.keyless] at given
      cases given
    · exact gives

theorem turned_commits : Commits founded [] turned :=
  .call (.call (.call .nil (.begin 1 ⟨7⟩) (by rfl)) (.operation openDen) (by rfl)) turning (by rfl)

def turnAgain : Operation :=
  .rotateKey ⟨.core 1000000, ⟨2⟩, ⟨0⟩, "k2", .ofList [(⟨2⟩, "k2"), (⟨3⟩, "c2")]⟩

theorem keys_have_provenance_turned :
    start .permissive funded [Watcher.idle] = .ok founded ∧ Commits founded [] turned ∧
    (∃ outcome after, turnAgain.perform turned.config ⟨7⟩ [] turned.db.push = (.ok outcome, after) ∧
      after.pastKey? ⟨0⟩ 2 ⟨3⟩ = some "c2" ∧ ∀ room epoch account, after.pastKey? room epoch account =
        Deed.key? ⟨turned.db.push, turnAgain, outcome, after⟩ room epoch account) ∧
    ∃ deeds, Lineage .permissive founded.db deeds turned.db ∧ deeds.map Deed.operation = openDen :: inDen ∧
      ∀ earlier d later, deeds = earlier ++ d :: later → d.Starts ⟨0⟩ 1 →
        d.after.participantIn? ⟨0⟩ ⟨3⟩ = none → ∃ g ∈ later, ∃ p, g.Gives p ⟨0⟩ 1 ⟨3⟩ := by
  obtain ⟨laws, deeds, lineage, told, given⟩ := keys_have_provenance founded_started turned_commits
  have turns : (turnAgain.perform turned.config ⟨7⟩ [] turned.db.push).1.toOption.isSome := by decide +kernel
  have key : (turnAgain.perform turned.config ⟨7⟩ [] turned.db.push).2.pastKey? ⟨0⟩ 2 ⟨3⟩ = some "c2" := by
    decide +kernel
  have operations : ((turned.receipts []).flatMap BlockReceipt.operations).map Prod.fst = openDen :: inDen := by
    decide +kernel
  have late : turned.db.pastKey? ⟨0⟩ 1 ⟨3⟩ = some "c1" := by decide +kernel
  refine ⟨founded_started, turned_commits, ?_, deeds, lineage, ?_, fun earlier d later split starts absent =>
    given earlier d later _ _ _ split starts absent (by rw [late]; rfl)⟩
  · cases run : turnAgain.perform turned.config ⟨7⟩ [] turned.db.push with
    | mk result after =>
      rw [run] at turns key
      cases result with
      | error e => cases turns
      | ok outcome => exact ⟨outcome, after, rfl, key, (laws _ _ _ _ _ _ .alone run).1⟩
  · rw [← operations, ← told, List.map_map]
    rfl

end Chain

end RoomLedger
