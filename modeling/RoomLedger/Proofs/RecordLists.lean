import RoomLedger.Proofs.RecordScans
import RoomLedger.Proofs.UniqueLookups

namespace RoomLedger.Database

variable {db after : Database} {k : Kind} {name : String} {index : Index k.Row}

theorem rows_of_held {t : Tracked k.Row} (held : db.tables.get k = some t) : db.rows k = t.table.rows.values := by
  rw [rows, held]

theorem ascending_rows (sound : db.Sound) (k : Kind) :
    (db.rows k).Pairwise fun row other => Stored.number row < Stored.number other := by
  cases held : db.tables.get k with
  | none =>
    rw [rows, held]
    exact .nil
  | some t =>
    rw [rows_of_held held]
    exact Table.ascending_values (sound.table k t held).toCoherent

theorem rows_eq (sound : db.Sound) {list : List k.Row}
    (ordered : list.Pairwise fun row other => Stored.number row < Stored.number other)
    (member : ∀ row, row ∈ list ↔ db.row? k (Stored.number row) = some row) : db.rows k = list := by
  have once : list.Nodup := by
    apply ordered.imp
    intro row other less same
    rw [same] at less
    exact Nat.lt_irrefl _ less
  have perm : (db.rows k).Perm list := (List.perm_ext_iff_of_nodup (nodup_rows sound k) once).mpr fun row => by
    rw [mem_rows sound, member]
  refine perm.eq_of_pairwise (fun row other _ _ less more => ?_) (ascending_rows sound k) ordered
  exact absurd less (Nat.lt_asymm more)

theorem rows_map (sound : db.Sound) (sound' : after.Sound) {f : k.Row → k.Row}
    (keeps : ∀ row, Stored.number (f row) = Stored.number row)
    (changed : ∀ n, after.row? k n = (db.row? k n).map f) : after.rows k = (db.rows k).map f := by
  refine rows_eq sound' (List.pairwise_map.mpr ?_) fun row => ?_
  · simp only [keeps]
    exact ascending_rows sound k
  · rw [List.mem_map, changed, Option.map_eq_some_iff]
    constructor
    · intro given
      obtain ⟨old, listed, rfl⟩ := given
      exact ⟨old, by rw [keeps]; exact (mem_rows sound).mp listed, rfl⟩
    · intro given
      obtain ⟨old, stored, same⟩ := given
      exact ⟨old, mem_rows_iff.mpr ⟨_, stored⟩, same⟩

theorem rows_filter (sound : db.Sound) (sound' : after.Sound) {stays : k.Row → Prop} [DecidablePred stays]
    (left : ∀ n row, after.row? k n = some row ↔ db.row? k n = some row ∧ stays row) :
    after.rows k = (db.rows k).filter fun row => stays row := by
  refine rows_eq sound' ((ascending_rows sound k).filter _) fun row => ?_
  rw [List.mem_filter, mem_rows sound, left, decide_eq_true_eq]

-- The list is in the order of numbers, so what is done to one record is done to one member.
theorem Puts.rows_map {n : Nat} {f : k.Row → k.Row} {row : k.Row} (puts : db.Puts k n (some (f row)) after)
    (sound : db.Sound) (stored : db.row? k n = some row)
    (keeps : ∀ row, Stored.number (f row) = Stored.number row)
    (apart : ∀ m other, db.row? k m = some other → m ≠ n → f other = other) : after.rows k = (db.rows k).map f := by
  refine Database.rows_map sound (puts.continues.sound sound) keeps fun m => ?_
  rw [puts.rows]
  split
  · rename_i here
    rw [here, stored]
    rfl
  · rename_i elsewhere
    cases there : db.row? k m with
    | none => rfl
    | some other => rw [Option.map_some, apart m other there elsewhere]

-- A new record has the next number, which is above all others.
theorem Puts.rows_append {row : k.Row} (puts : db.Puts k (db.next k) (some row) after) (sound : db.Sound) :
    after.rows k = db.rows k ++ [row] := by
  have sound' := puts.continues.sound sound
  have stored : after.row? k (db.next k) = some row := by rw [puts.rows, if_pos rfl]
  have number : Stored.number row = db.next k := sound'.numbered stored
  refine rows_eq sound' (List.pairwise_append.mpr ⟨ascending_rows sound k, List.pairwise_singleton .., ?_⟩) ?_
  · intro other listed new same
    cases List.mem_singleton.mp same
    rw [number]
    exact sound.bounded ((mem_rows sound).mp listed)
  · intro other
    rw [List.mem_append, mem_rows sound, List.mem_singleton, puts.rows]
    split
    · rename_i last
      rw [last, row?_next sound, Option.some.injEq, eq_comm (a := other)]
      simp
    · rename_i early
      refine ⟨fun given => given.resolve_right ?_, .inl⟩
      rintro rfl
      exact early number

theorem listed_withKey_eq (sound : db.Sound) (declared : Table.Declared name index) (key : Key) :
    listed (db.withKey k name key) = (db.rows k).filter fun row => index.key row = key := by
  cases held : db.tables.get k with
  | none =>
    rw [withKey, lookUp_none held, rows, held]
    rfl
  | some t =>
    have coherent := (sound.table k t held).toCoherent
    obtain ⟨rows, run, lists⟩ := Table.withKey_lists coherent declared key
    rw [withKey, lookUp_eq held, run, rows_of_held held]
    exact lists.eq_filter coherent

theorem participantsOf_eq (sound : db.Sound) (room : RoomId) :
    db.participantsOf room = (db.rows .participant).filter fun m => m.room = room := by
  have listed := listed_withKey_eq sound Table.participant_by_room [room.part]
  simp only [List.cons.injEq, RecordId.part_inj, and_true] at listed
  exact listed

end RoomLedger.Database
