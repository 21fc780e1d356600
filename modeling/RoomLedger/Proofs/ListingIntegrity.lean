import Mathlib.Data.List.Basic
import RoomLedger.Proofs.RecordIds
import RoomLedger.Proofs.SnapshotRefinement
import RoomLedger.Proofs.TrackedRuns

namespace RoomLedger

open Std

theorem SortedMap.filterMap_lookup {α : Type} (count start : Nat) {entries : List (Nat × α)}
    (sorted : Ascending entries) (within : ∀ e ∈ entries, start ≤ e.1 ∧ e.1 < start + count) :
    (List.range' start count).filterMap (lookupEntry · entries) = entries.map (·.2) := by
  induction count generalizing start entries with
  | zero =>
    cases entries with
    | nil => rfl
    | cons e rest => have := within e (List.mem_cons_self ..); omega
  | succ count ih =>
    rw [List.range'_succ, List.filterMap_cons]
    cases entries with
    | nil => exact ih (start + 1) sorted fun e member => nomatch member
    | cons e rest =>
      obtain ⟨head, tail⟩ := List.pairwise_cons.mp sorted
      have later : ∀ other ∈ rest, e.1 < other.1 := fun other member =>
        Nat.compare_eq_lt.mp (head other member)
      obtain ⟨low, high⟩ := within e (List.mem_cons_self ..)
      -- The first number is that of the first entry, or nobody has it.
      by_cases first : e.1 = start
      · have found : lookupEntry start (e :: rest) = some e.2 := by
          rw [lookupEntry, first, ReflOrd.compare_self]
        have passed : ∀ n ∈ List.range' (start + 1) count,
            lookupEntry n (e :: rest) = lookupEntry n rest := by
          intro n member
          have beyond := List.mem_range'_1.mp member
          have order : compare n e.1 = .gt := Nat.compare_eq_gt.mpr (by omega)
          rw [lookupEntry, order]
        rw [found, List.filterMap_congr passed, ih (start + 1) tail]
        · rfl
        · intro other member
          have := later other member
          have := within other (List.mem_cons_of_mem _ member)
          omega
      · have missing : lookupEntry start (e :: rest) = none := by
          have order : compare start e.1 = .lt := Nat.compare_eq_lt.mpr (by omega)
          rw [lookupEntry, order]
        rw [missing]
        apply ih (start + 1) sorted
        intro other member
        have := within other member
        rcases List.mem_cons.mp member with rfl | member
        · omega
        · have := later other member
          omega

namespace Table

variable {α : Type} [Stored α] {t : Table α} {row : α}

-- Each listing holds one entry for each record, and a record stands under its own number and below
-- the counter.
structure Mirrored (t : Table α) : Prop where
  listed : ∀ (i : Nat) (index : Index α), Stored.indices[i]? = some index →
    ∃ listing : Listing, t.listings[i]? = some listing ∧
      ∀ e, e ∈ listing.toList ↔ ∃ n row, t.get? n = some row ∧ e = ⟨index.key row, n⟩
  numbered : ∀ n row, t.get? n = some row → Stored.number row = n ∧ n < t.next
  -- Going through all numbers that have been given out meets each record once.
  scanned : (List.range t.next).filterMap t.get? = t.rows.values
  distinct : ∀ index ∈ Stored.indices (α := α), index.unique = true → ∀ m n row other,
    t.get? m = some row → t.get? n = some other → index.key row = index.key other → m = n

def Taken (t : Table α) (row : α) : Prop :=
  ∃ n other, n ≠ Stored.number row ∧ t.get? n = some other ∧ Collides row other

theorem Coherent.listed (coherent : t.Coherent) {i : Nat} {index : Index α}
    (declared : Stored.indices[i]? = some index) :
    ∃ listing : Listing, t.listings[i]? = some listing ∧
      ∀ e, e ∈ listing.toList ↔ ∃ n row, t.get? n = some row ∧ e = ⟨index.key row, n⟩ := by
  refine ⟨listing index t.rows, ?_, ?_⟩
  · rw [coherent.mirrored, listingsOf, List.getElem?_map, declared]
    rfl
  · intro e
    rw [SortedSet.mem_toList_iff, contains_listing]
    constructor
    · intro given
      obtain ⟨row, found, key⟩ := given
      exact ⟨e.number, row, found, by rw [key]⟩
    · intro given
      obtain ⟨n, row, found, rfl⟩ := given
      exact ⟨row, found, rfl⟩

theorem Sound.scanned (sound : t.Sound) : (List.range t.next).filterMap t.get? = t.rows.values := by
  rw [List.range_eq_range']
  apply SortedMap.filterMap_lookup t.next 0 t.rows.ascending
  intro e member
  have found := (t.rows.mem_entries_iff e.1 e.2).mp member
  exact ⟨Nat.zero_le _, by rw [Nat.zero_add]; exact sound.bounded e.1 e.2 found⟩

theorem Sound.allMirrored (sound : t.Sound) : t.Mirrored where
  listed _ _ declared := sound.toCoherent.listed declared
  numbered n row found := ⟨sound.numbered n row found, sound.bounded n row found⟩
  scanned := sound.scanned
  distinct index declared unique m n row other found beside same :=
    sound.distinct m n row other found beside ⟨index, declared, unique, same⟩

theorem clash?_taken {besides : Option Nat} {fault : TableFault} (clash : t.clash? row besides = some fault) :
    ∃ index holder, fault = .taken index holder := by
  obtain ⟨pair, -, reported⟩ := List.exists_of_findSome?_eq_some clash
  dsimp only at reported
  split at reported
  · obtain ⟨e, -, rfl⟩ := Option.map_eq_some_iff.mp reported
    exact ⟨_, _, rfl⟩
  · cases reported

theorem clash?_ne_none_iff (coherent : t.Coherent) (besides : Option Nat)
    (others : ∀ n other, t.get? n = some other → (some n = besides ↔ n = Stored.number row)) :
    t.clash? row besides ≠ none ↔ t.Taken row := by
  rw [Ne, clash?_eq_none_iff coherent]
  constructor
  · intro clash
    simp only [Classical.not_forall] at clash
    obtain ⟨n, other, found, collides, different⟩ := clash
    exact ⟨n, other, fun same => different ((others n other found).mpr same), found, collides⟩
  · intro taken free
    obtain ⟨n, other, different, found, collides⟩ := taken
    exact different ((others n other found).mp (free n other found collides))

theorem create_taken_iff (sound : t.Sound) (fill : α → α) :
    (∃ index holder, t.create fill = .error (.taken index holder)) ↔
      t.Taken (Stored.withNumber (fill Stored.blank) t.next) := by
  rw [← clash?_ne_none_iff sound.toCoherent none]
  · unfold create
    dsimp only
    split
    · rename_i fault clash
      obtain ⟨index, holder, rfl⟩ := clash?_taken clash
      simp [clash]
    · rename_i free
      simp [free]
  · intro n other found
    have below := sound.bounded n other found
    rw [Stored.number_withNumber]
    simp only [reduceCtorEq, false_iff]
    omega

theorem modify_taken_iff (sound : t.Sound) {n : Nat} {before : α} (found : t.get? n = some before)
    (change : α → α) : (∃ index holder, t.modify n change = .error (.taken index holder)) ↔
      t.Taken (Stored.withNumber (change before) n) := by
  rw [← clash?_ne_none_iff sound.toCoherent (some n)]
  · unfold modify
    simp only [found]
    split
    · rename_i fault clash
      obtain ⟨index, holder, rfl⟩ := clash?_taken clash
      simp [clash]
    · rename_i free
      simp [free]
  · intro m other _
    rw [Stored.number_withNumber, Option.some.injEq]

end Table

namespace Tracked

variable {α : Type} [Stored α] {t : Tracked α}

-- A table whose parts agree, and which refuses what would make a unique key stand twice, and only that.
structure Exact (t : Tracked α) : Prop where
  mirrored : t.table.Mirrored
  create_iff : ∀ fill, (∃ index holder, t.create fill = .error (.taken index holder)) ↔
    t.table.Taken (Stored.withNumber (fill Stored.blank) t.table.next)
  modify_iff : ∀ n row change, t.table.get? n = some row →
    ((∃ index holder, t.modify n change = .error (.taken index holder)) ↔
      t.table.Taken (Stored.withNumber (change row) n))

theorem create_error_iff {fill : α → α} {fault : TableFault} :
    t.create fill = .error fault ↔ t.table.create fill = .error fault := by
  unfold Tracked.create
  cases t.table.create fill with
  | error other => simp [bind, Except.bind]
  | ok made => simp [bind, Except.bind, pure, Except.pure]

theorem modify_error_iff {n : Nat} {change : α → α} {fault : TableFault} :
    t.modify n change = .error fault ↔ t.table.modify n change = .error fault := by
  unfold Tracked.modify
  cases t.table.modify n change with
  | error other => simp [bind, Except.bind]
  | ok made => simp [bind, Except.bind, pure, Except.pure]

theorem exact_of_sound (sound : t.table.Sound) : t.Exact where
  mirrored := sound.allMirrored
  create_iff fill := by
    simp only [create_error_iff]
    exact Table.create_taken_iff sound fill
  modify_iff n _ change found := by
    simp only [modify_error_iff]
    exact Table.modify_taken_iff sound found change

end Tracked

namespace Database

variable {db : Database} {k : Kind} {t : Tracked k.Row}

-- The same of a database, which answers with faults of its own and keeps nothing of a refused change.
structure Exact (db : Database) : Prop where
  mirrored : ∀ k t, db.tables.get k = some t → t.table.Mirrored
  create_iff : ∀ k t, db.tables.get k = some t → ∀ fill,
    ((∃ index holder, (create k fill db).1 = .error (.uniqueViolation k index holder)) ↔
      t.table.Taken (Stored.withNumber (fill Stored.blank) t.table.next))
  create_refused : ∀ k fill e, (create k fill db).1 = .error e → (create k fill db).2 = db
  modify_iff : ∀ k t, db.tables.get k = some t → ∀ n row change, t.table.get? n = some row →
    ((∃ index holder, (modify k (k.id n) change db).1 = .error (.uniqueViolation k index holder)) ↔
      t.table.Taken (Stored.withNumber (change row) n))
  modify_refused : ∀ k id change e, (modify k id change db).1 = .error e → (modify k id change db).2 = db
  snapshot_eq : db.snapshot = .ofMembers (db.all.map fun r => (r.id.text, r.toJson))
  distinct_ids : (db.all.map AnyRow.id).Nodup

theorem ofTable_violation_iff {fault : TableFault} :
    (∃ index holder, DbError.ofTable k fault = .uniqueViolation k index holder) ↔
      ∃ index holder, fault = .taken index holder := by
  cases fault with
  | missing number => simp [DbError.ofTable]
  | taken index holder => exact ⟨fun _ => ⟨index, holder, rfl⟩, fun _ => ⟨index, k.id holder, rfl⟩⟩
  | noIndex name => simp [DbError.ofTable]

theorem create_violation_iff (held : db.tables.get k = some t) (fill : k.Row → k.Row) :
    (∃ index holder, (create k fill db).1 = .error (.uniqueViolation k index holder)) ↔
      ∃ index holder, t.table.create fill = .error (.taken index holder) := by
  rw [create_apply, held]
  dsimp only
  cases t.table.create fill with
  | error fault => simpa only [Except.error.injEq] using ofTable_violation_iff
  | ok made => simp

theorem modify_violation_iff (held : db.tables.get k = some t) (n : Nat) (change : k.Row → k.Row) :
    (∃ index holder, (modify k (k.id n) change db).1 = .error (.uniqueViolation k index holder)) ↔
      ∃ index holder, t.table.modify n change = .error (.taken index holder) := by
  rw [modify_apply, numberOf_id, held]
  dsimp only
  cases t.table.modify n change with
  | error fault => simpa only [Except.error.injEq] using ofTable_violation_iff
  | ok made => simp

theorem create_refused {fill : k.Row → k.Row} {e : DbError} (refused : (create k fill db).1 = .error e) :
    (create k fill db).2 = db := by
  rw [create_apply] at refused ⊢
  split at refused
  · rfl
  · split at refused
    · rfl
    · cases refused

theorem modify_refused {id : ObjectId} {change : k.Row → k.Row} {e : DbError}
    (refused : (modify k id change db).1 = .error e) : (modify k id change db).2 = db := by
  rw [modify_apply] at refused ⊢
  split at refused
  · rfl
  · split at refused
    · rfl
    · split at refused
      · rfl
      · cases refused

theorem snapshot_rows (sound : db.Sound) :
    db.snapshot = .ofMembers (db.all.map fun r => (r.id.text, r.toJson)) := by
  unfold snapshot all
  rw [List.map_flatMap]
  refine congrArg (fun members => Json.ofMembers (Kind.all.flatMap members)) (funext fun k => ?_)
  unfold rows
  cases held : db.tables.get k with
  | none => rfl
  | some t =>
    have table := sound.table k t held
    dsimp only [SortedMap.values]
    rw [List.map_map, List.map_map, ← List.filterMap_eq_map]
    refine List.filterMap_congr fun e member => ?_
    have found := (t.table.rows.mem_entries_iff e.1 e.2).mp member
    rw [if_pos (table.bounded e.1 e.2 found)]
    simp only [Function.comp_apply, AnyRow.id, Kind.idOf, table.numbered e.1 e.2 found]
    rfl

theorem exact_of_sound (sound : db.Sound) : db.Exact where
  mirrored k t held := (sound.table k t held).allMirrored
  create_iff k t held fill := (create_violation_iff held fill).trans
    (Table.create_taken_iff (sound.table k t held) fill)
  create_refused _ _ _ refused := create_refused refused
  modify_iff k t held n _ change found := (modify_violation_iff held n change).trans
    (Table.modify_taken_iff (sound.table k t held) found change)
  modify_refused _ _ _ _ refused := modify_refused refused
  snapshot_eq := snapshot_rows sound
  distinct_ids := nodup_ids sound

-- For records of any type, and for the database of a ledger.
theorem listings_mirror_records :
    (∀ (α : Type) [Stored α] (depth : Nat) (calls : List (Tracked.Call α)),
      (Tracked.runAll calls (.empty depth)).Exact) ∧
    (∀ (kinds : List Kind) (calls : List Call), (answers Call.run calls (opened kinds)).2.Exact) := by
  constructor
  · intro α _ depth calls
    exact Tracked.exact_of_sound (Tracked.runAll_sound calls depth)
  · intro kinds calls
    obtain ⟨saved, recalls, -⟩ := answers_copying calls (opened_recalls kinds)
    exact exact_of_sound recalls.sound

end Database

end RoomLedger
