import RoomLedger.Proofs.LedgerIntegrity
import RoomLedger.Proofs.RoomRules

namespace RoomLedger

open Database Change

variable {config : Config} {db : Database} {room : RoomId}

namespace Database

-- The members of a room, their keys, and the keys that have been handed out for it.
structure KeepsKeys (config : Config) (db : Database) (r : Room) : Prop where
  owner : ((db.rows .participant).filter fun p => p.room = r.id ∧ p.account = r.owner).map
    Participant.contentKey = [r.roomKey]
  current : ∀ p ∈ db.rows .participant, p.room = r.id →
    ((db.rows .epochKey).filter fun e => e.room = r.id ∧ e.epoch = r.epoch ∧ e.account = p.account).map
      EpochKey.contentKey = [p.contentKey]
  past : ∀ e ∈ db.rows .epochKey, e.room = r.id → e.epoch ≤ r.epoch
  single : (((db.rows .epochKey).filter fun e => e.room = r.id).map fun e => (e.epoch, e.account)).Nodup
  owned : ∀ epoch, epoch ≤ r.epoch →
    ∃ e ∈ db.rows .epochKey, e.room = r.id ∧ e.epoch = epoch ∧ e.account = r.owner
  size : let count := ((db.rows .participant).filter fun p => p.room = r.id).length
    1 ≤ count ∧ count ≤ config.maxParticipants.toNat

-- What a look-up finds is what would be found by looking at every record.
theorem filter_rows_eq (sound : db.Sound) {k : Kind} {fits : k.Row → Prop} [DecidablePred fits]
    {found : Option k.Row}
    (spec : ∀ row, found = some row ↔ db.row? k (Stored.number row) = some row ∧ fits row) :
    (db.rows k).filter (fun row => fits row) = found.toList := by
  have member : ∀ row, row ∈ (db.rows k).filter (fun row => fits row) ↔ row ∈ found.toList := by
    intro row
    rw [List.mem_filter, decide_eq_true_eq, mem_rows sound, ← spec, Option.mem_toList]
  have nodup := (nodup_rows sound k).filter (fun row => fits row)
  cases found with
  | none => exact List.eq_nil_iff_forall_not_mem.mpr fun row listed => nomatch (member row).mp listed
  | some row =>
    exact List.perm_singleton.mp ((List.perm_ext_iff_of_nodup nodup (List.nodup_singleton row)).mpr member)

theorem filter_of_memberKey? (sound : db.Sound) {account : AccountId} {key : String}
    (given : db.memberKey? room account = some key) :
    ((db.rows .participant).filter fun p => p.room = room ∧ p.account = account).map
      Participant.contentKey = [key] := by
  obtain ⟨p, found, rfl⟩ := Option.map_eq_some_iff.mp given
  rw [filter_rows_eq (k := .participant) sound (fun q => participantIn?_eq_some_iff sound (p := q)), found]
  rfl

theorem filter_of_pastKey? (sound : db.Sound) {epoch : UInt32} {account : AccountId} {key : String}
    (given : db.pastKey? room epoch account = some key) :
    ((db.rows .epochKey).filter fun e => e.room = room ∧ e.epoch = epoch ∧ e.account = account).map
      EpochKey.contentKey = [key] := by
  obtain ⟨e, found, rfl⟩ := Option.map_eq_some_iff.mp given
  rw [filter_rows_eq (k := .epochKey) sound (fun e => epochKey?_eq_some_iff sound (e := e)), found]
  rfl

theorem length_participantsOf (sound : db.Sound) (room : RoomId) :
    (db.participantsOf room).length = ((db.rows .participant).filter fun p => p.room = room).length := by
  refine ((List.perm_ext_iff_of_nodup (.of_map _ (nodup_participantsOf sound room))
    ((nodup_rows sound .participant).filter _)).mpr fun p => ?_).length_eq
  rw [mem_participantsOf sound, List.mem_filter, decide_eq_true_eq, mem_rows sound]
  rfl

theorem RoomsInStep.keeps (inStep : db.RoomsInStep config) (sound : db.Sound) {n : Nat} {r : Room}
    (stored : db.row? .room n = some r) : db.KeepsKeys config r := by
  have keys := inStep.keys n r stored
  refine ⟨filter_of_memberKey? sound keys.owner, ?_, ?_, ?_, ?_, ?_, ?_⟩
  · intro p listed inside
    have member := memberKey?_eq_some sound ((mem_rows sound).mp listed)
    rw [inside] at member
    exact filter_of_pastKey? sound (keys.current _ _ member)
  · intro e listed inside
    have handed := pastKey?_eq_some sound ((mem_rows sound).mp listed)
    rw [inside] at handed
    exact keys.past _ _ _ handed
  · refine List.pairwise_map.mpr (((List.pairwise_map.mp
      (nodup_numbers sound .epochKey)).filter _).imp_of_mem ?_)
    intro d e listed beside different same
    obtain ⟨there, inside⟩ := List.mem_filter.mp listed
    obtain ⟨there', inside'⟩ := List.mem_filter.mp beside
    obtain ⟨epoch, account⟩ := Prod.mk.inj same
    rw [decide_eq_true_eq] at inside inside'
    exact different (sound.distinct ((mem_rows sound).mp there) ((mem_rows sound).mp there')
      (Table.collides_epochKey.mpr ⟨inside.trans inside'.symm, epoch, account⟩))
  · intro epoch reached
    obtain ⟨key, handed⟩ := keys.owned epoch reached
    obtain ⟨e, found, -⟩ := Option.map_eq_some_iff.mp handed
    obtain ⟨there, fits⟩ := (epochKey?_eq_some_iff sound).mp found
    exact ⟨e, (mem_rows sound).mpr there, fits⟩
  · rw [← length_participantsOf sound]
    obtain ⟨p, member, -⟩ := (memberKey?_isSome_iff sound).mp (by rw [keys.owner]; rfl)
    exact List.length_pos_of_mem member
  · rw [← length_participantsOf sound]
    exact inStep.size n r stored

end Database

namespace Chain

variable {ω : Type} {total : Int} {first last : Chain ω} {genesis : Genesis} {observers : List ω}

theorem rooms_last (space : 1 ≤ config.maxParticipants.toNat) :
    Lasting total config fun db => db.Orderly config ∧ db.RoomsInStep config := by
  have orderly : Lasting total config fun db => db.Orderly config := orderly_lasts
  refine ⟨?_, ?_, ?_⟩
  · intro db after sound sound' same given
    exact ⟨orderly.same db after sound sound' same given.1, given.2.congr fun k _ => by rw [same]⟩
  · intro db after number time standing given advanced
    have sound := standing.grounded.sound
    obtain ⟨head, -, puts, -⟩ := modify_eq_ok sound advanced
    refine ⟨orderly.advance db after number time standing given.1 advanced, ?_⟩
    refine given.2.congr fun k listed => contents_congr (puts.others k ?_)
    revert k
    decide
  · intro db time fee results op outcome after standing given performed
    have sound := standing.grounded.sound
    exact ⟨performed.orderly sound given.1, performed.inStep sound given.1.inOrder given.2 space⟩

theorem start_roomless (started : start config genesis observers = .ok first) : first.db.RoomsInStep config := by
  obtain ⟨-, populated⟩ := Genesis.apply_populates (start_applies started).1
  have edited := genesis.populate_writes.edited populated
  have roomless : ∀ n, first.db.row? .room n = none := fun n => by
    rw [row?_congr (edited.tables (by decide)), row?_registerAll]
  refine ⟨fun n r stored => ?_, fun n r stored => ?_⟩
  · rw [roomless] at stored
    cases stored
  · rw [roomless] at stored
    cases stored

theorem rooms_keep_keys [Observer ω] {answers : List (Except ChainError Unit)}
    (space : 1 ≤ config.maxParticipants) (started : start config genesis observers = .ok first)
    (run : Run first answers last) : ∀ r ∈ last.db.rows .room, last.db.KeepsKeys config r := by
  obtain ⟨idle, fixed, orderly⟩ := start_orderly started
  have sound := (run_steady (.idle idle) run).standing.grounded.sound
  have given := (rooms_last (UInt64.le_iff_toNat_le.mp space)).run idle fixed
    ⟨orderly, start_roomless started⟩ run
  exact fun r listed => given.2.keeps sound ((mem_rows sound).mp listed)

-- The room gets a second participant, who leaves and comes back, and then a new key.
def inDen : List Operation := [
  .addParticipant ⟨.core 500000, ⟨2⟩, ⟨0⟩, ⟨3⟩, "c0", .empty⟩,
  .removeParticipant ⟨.core 100000, ⟨2⟩, ⟨1⟩⟩,
  .rotateKey ⟨.core 1000000, ⟨2⟩, ⟨0⟩, "k1", .ofList [(⟨2⟩, "k1")]⟩,
  .addParticipant ⟨.core 500000, ⟨2⟩, ⟨0⟩, ⟨3⟩, "c1", .ofList [(0, "again")]⟩]

def turning : Call := .transaction ⟨inDen, .empty⟩

def turned : Chain Watcher := (turning.run housed).2

theorem turned_run : Run founded [.ok (), .ok (), .ok ()] turned := by
  have answered : (turning.run housed).1 = .ok () := by decide +kernel
  have run : Run founded ([.ok (), .ok ()] ++ [(turning.run housed).1]) turned :=
    .call housed_run turning (by rfl)
  rwa [answered] at run

theorem turned_rooms : turned.db.rows .room = ([⟨⟨0⟩, ⟨2⟩, "den", "k1", ⟨7⟩, 1⟩] : List Room) := by
  decide +kernel

theorem turned_keys : turned.db.rows .epochKey = ([⟨⟨0⟩, ⟨0⟩, 0, ⟨2⟩, "k0"⟩, ⟨⟨1⟩, ⟨0⟩, 0, ⟨3⟩, "again"⟩,
    ⟨⟨2⟩, ⟨0⟩, 1, ⟨2⟩, "k1"⟩, ⟨⟨3⟩, ⟨0⟩, 1, ⟨3⟩, "c1"⟩] : List EpochKey) := by
  decide +kernel

theorem rooms_keep_keys_turned :
    1 ≤ Config.permissive.maxParticipants ∧ start .permissive funded [Watcher.idle] = .ok founded ∧
    Run founded [.ok (), .ok (), .ok ()] turned ∧
    turned.db.rows .room = ([⟨⟨0⟩, ⟨2⟩, "den", "k1", ⟨7⟩, 1⟩] : List Room) ∧
    turned.db.KeepsKeys .permissive ⟨⟨0⟩, ⟨2⟩, "den", "k1", ⟨7⟩, 1⟩ ∧
    (turned.db.rows .epochKey).map EpochKey.contentKey = ["k0", "again", "k1", "c1"] := by
  refine ⟨by decide, founded_started, turned_run, turned_rooms, ?_, by rw [turned_keys]; rfl⟩
  exact rooms_keep_keys (by decide) founded_started turned_run _
    (by rw [turned_rooms]; exact List.mem_singleton.mpr rfl)

end Chain

end RoomLedger
