import RoomLedger.Proofs.LedgerKeys

namespace RoomLedger

namespace Database

variable {db after : Database} {k : Kind} {n : Nat} {name : String} {index : Index k.Row}

theorem found_eq_some_iff (sound : db.Sound) (declared : Table.Declared name index)
    (unique : index.unique = true) (key : Key) (row : k.Row) :
    found (db.findBy k name key) = some row ↔
      db.row? k (Stored.number row) = some row ∧ index.key row = key := by
  obtain ⟨some_spec, none_spec⟩ := found_spec sound declared key
  constructor
  · exact some_spec row
  · intro given
    obtain ⟨stored, same⟩ := given
    cases searched : found (db.findBy k name key) with
    | none => exact absurd same (none_spec searched _ _ stored)
    | some other =>
      obtain ⟨stored', same'⟩ := some_spec other searched
      have one := sound.distinct stored stored' ⟨index, declared.mem, unique, same.trans same'.symm⟩
      rw [one, stored'] at stored
      exact stored

-- A write at a place that belongs to one key, and where there is a record before or after it.
theorem found_puts (sound : db.Sound) (declared : Table.Declared name index) (unique : index.unique = true)
    {held : Option k.Row} (puts : db.Puts k n held after) (own : Key)
    (before : ∀ row, db.row? k n = some row → index.key row = own)
    (now : ∀ row, held = some row → index.key row = own)
    (taken : (∃ row, db.row? k n = some row) ∨ ∃ row, held = some row) (key : Key) :
    found (after.findBy k name key) = if key = own then held else found (db.findBy k name key) := by
  have sound' := puts.continues.sound sound
  have at_n : after.row? k n = held := by rw [puts.rows, if_pos rfl]
  -- The place of a record with the key of this place is this place.
  have alone : ∀ m row, after.row? k m = some row → index.key row = own → m = n := by
    intro m row stored same
    rcases taken with ⟨old, there⟩ | ⟨new, rfl⟩
    · by_cases other : m = n
      · exact other
      · rw [puts.rows, if_neg other] at stored
        exact sound.distinct stored there ⟨index, declared.mem, unique, same.trans (before old there).symm⟩
    · exact sound'.distinct stored at_n ⟨index, declared.mem, unique, same.trans (now new rfl).symm⟩
  apply Option.ext
  intro row
  rw [found_eq_some_iff sound' declared unique]
  by_cases same : key = own
  · rw [if_pos same]
    constructor
    · intro given
      obtain ⟨stored, keyed⟩ := given
      rw [← at_n, ← alone _ row stored (keyed.trans same)]
      exact stored
    · intro given
      have stored := at_n.trans given
      exact ⟨by rw [sound'.numbered stored]; exact stored, (now row given).trans same.symm⟩
  · rw [if_neg same, found_eq_some_iff sound declared unique, puts.rows]
    split
    · rename_i here
      constructor
      · intro given
        exact absurd (given.2.symm.trans (now row given.1)) same
      · intro given
        obtain ⟨stored, keyed⟩ := given
        rw [here] at stored
        exact absurd (keyed.symm.trans (before row stored)) same
    · rfl

theorem participantIn?_eq_some_iff (sound : db.Sound) {room : RoomId} {account : AccountId}
    {p : Participant} : db.participantIn? room account = some p ↔
      db.row? .participant p.id.number = some p ∧ p.room = room ∧ p.account = account := by
  have iff := found_eq_some_iff sound Table.participant_by_room_and_participant rfl
    [room.part, account.part] p
  simp only [List.cons.injEq, RecordId.part_inj, and_true] at iff
  exact iff

theorem epochKey?_eq_some_iff (sound : db.Sound) {room : RoomId} {epoch : UInt32} {account : AccountId}
    {e : EpochKey} : db.epochKey? room epoch account = some e ↔
      db.row? .epochKey e.id.number = some e ∧ e.room = room ∧ e.epoch = epoch ∧ e.account = account := by
  have iff := found_eq_some_iff sound Table.epochKey_by_room_epoch_participant rfl
    [room.part, epochPart epoch, account.part] e
  simp only [List.cons.injEq, RecordId.part_inj, epochPart_inj, and_true] at iff
  exact iff

theorem accountNamed?_eq_some_iff (sound : db.Sound) {account : Account} {name : String} :
    db.accountNamed? name = some account ↔
      db.row? .account account.id.number = some account ∧ account.name = name := by
  have iff := found_eq_some_iff sound Table.account_by_name rfl [.text name] account
  simp only [List.cons.injEq, KeyPart.text.injEq, and_true] at iff
  exact iff

theorem mem_rows_iff {row : k.Row} : row ∈ db.rows k ↔ ∃ n, db.row? k n = some row := by
  unfold rows row?
  cases db.tables.get k with
  | none => simp
  | some t => exact t.table.rows.mem_values_iff row

theorem nodup_numbers (sound : db.Sound) (k : Kind) : ((db.rows k).map Stored.number).Nodup := by
  unfold rows
  cases held : db.tables.get k with
  | none => exact List.nodup_nil
  | some t =>
    have same : t.table.rows.values.map Stored.number = t.table.rows.keys := by
      unfold SortedMap.values SortedMap.keys
      rw [List.map_map]
      refine List.map_congr_left fun e member => ?_
      exact (sound.table k t held).numbered e.1 e.2 ((t.table.rows.mem_entries_iff e.1 e.2).mp member)
    dsimp only
    rw [same]
    exact t.table.rows.nodup_keys

theorem nodup_rows (sound : db.Sound) (k : Kind) : (db.rows k).Nodup :=
  List.Pairwise.of_map _ (fun _ _ different same => different (congrArg _ same)) (nodup_numbers sound k)

theorem mem_rows (sound : db.Sound) {row : k.Row} :
    row ∈ db.rows k ↔ db.row? k (Stored.number row) = some row := by
  rw [mem_rows_iff]
  constructor
  · intro given
    obtain ⟨n, stored⟩ := given
    rwa [sound.numbered stored]
  · exact fun stored => ⟨_, stored⟩

theorem nodup_unique {β : Type} (sound : db.Sound) (label : k.Row → β)
    (unique : ∀ row other : k.Row, label row = label other → Table.Collides row other) :
    ((db.rows k).map label).Nodup := by
  refine List.pairwise_map.mpr ((List.pairwise_map.mp (nodup_numbers sound k)).imp_of_mem ?_)
  intro row other listed beside different same
  exact different (sound.distinct ((mem_rows sound).mp listed) ((mem_rows sound).mp beside)
    (unique row other same))

end Database

end RoomLedger
