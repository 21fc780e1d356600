import RoomLedger.Chain.Notice
import RoomLedger.Proofs.RecordIds
import RoomLedger.Proofs.SnapshotRefinement

namespace RoomLedger

namespace Delta.Trace.Explains

variable {α : Type} {t : Trace α} {before after : Option α} {row next : α}

theorem created_iff (explains : t.Explains before after) :
    t.created = true ↔ after.isSome ∧ before = none := by
  cases explains <;> simp

theorem removed_iff (explains : t.Explains before after) :
    t.removed? = some row ↔ before = some row ∧ after = none := by
  cases explains <;> simp

theorem kept_of_modified (explains : t.Explains before after) (image : t.modified? = some row) :
    before = some row ∧ after.isSome := by
  cases explains <;> simp_all

theorem same_of_unmodified (explains : t.Explains (some row) (some next)) (image : t.modified? = none) :
    row = next := by
  cases explains with
  | modified => cases image
  | kept => rfl

end Delta.Trace.Explains

-- What is created was not there, what is modified is there still, and what is removed is not.
theorem nodup_changes {ι α : Type} (held now : ι → Option α) {created modified removed : List ι}
    (nodup : created.Nodup) (nodup' : modified.Nodup) (nodup'' : removed.Nodup) (fresh : ∀ i ∈ created, held i = none)
    (kept : ∀ i ∈ modified, (held i).isSome ∧ (now i).isSome)
    (gone : ∀ i ∈ removed, (held i).isSome ∧ now i = none) : (created ++ modified ++ removed).Nodup := by
  refine List.nodup_append.mpr ⟨List.nodup_append.mpr ⟨nodup, nodup', ?_⟩, nodup'', ?_⟩
  · rintro i new _ old rfl
    have there := (kept i old).1
    simp [fresh i new] at there
  · rintro i given _ old rfl
    obtain ⟨there, missing⟩ := gone i old
    rcases List.mem_append.mp given with new | changed
    · simp [fresh i new] at there
    · have still := (kept i changed).2
      simp [missing] at still

namespace Delta

variable {α : Type} {d : Delta α} {before after : Table α}

structure NetDifference (d : Delta α) (before after : Table α) : Prop where
  created : ∀ n, n ∈ d.created.toList ↔ (after.get? n).isSome ∧ before.get? n = none
  removed : ∀ n row, d.removed.get? n = some row ↔ before.get? n = some row ∧ after.get? n = none
  modified : ∀ n row, d.modified.get? n = some row → before.get? n = some row ∧ (after.get? n).isSome
  unmodified : ∀ n row next, before.get? n = some row → after.get? n = some next → row ≠ next →
    d.modified.get? n = some row
  apart : (d.created.toList ++ d.modified.keys ++ d.removed.keys).Nodup
  counter : after.next ≠ before.next → d.next? = some before.next

theorem Spans.apart [Stored α] (spans : d.Spans before after) :
    (d.created.toList ++ d.modified.keys ++ d.removed.keys).Nodup := by
  refine nodup_changes before.get? after.get? d.created.nodup_toList d.modified.nodup_keys d.removed.nodup_keys
    ?_ ?_ ?_
  · intro n member
    exact ((spans.explained n).created_iff.mp ((d.created.mem_toList_iff n).mp member)).2
  · intro n member
    obtain ⟨row, image⟩ := (d.modified.mem_keys_iff n).mp member
    obtain ⟨there, still⟩ := (spans.explained n).kept_of_modified image
    exact ⟨Option.isSome_of_eq_some there, still⟩
  · intro n member
    obtain ⟨row, image⟩ := (d.removed.mem_keys_iff n).mp member
    obtain ⟨there, missing⟩ := (spans.explained n).removed_iff.mp image
    exact ⟨Option.isSome_of_eq_some there, missing⟩

theorem Spans.netDifference [Stored α] (spans : d.Spans before after) : d.NetDifference before after where
  created n := (d.created.mem_toList_iff n).trans (spans.explained n).created_iff
  removed n _ := (spans.explained n).removed_iff
  modified n _ image := (spans.explained n).kept_of_modified image
  unmodified n row next found now different := by
    have explained := spans.explained n
    rw [found, now] at explained
    cases image : d.modified.get? n with
    | none => exact absurd (explained.same_of_unmodified image) different
    | some earlier => exact (explained.kept_of_modified image).1.symm
  apart := spans.apart
  counter grown := (Option.getD_eq_iff.mp spans.counter).resolve_right fun same => grown same.2

end Delta

namespace Tracked

variable {α : Type} [Stored α] {base t : Tracked α} {saved : List (Tracked α)}

theorem Recalls.spans (recalls : t.Recalls (base :: saved)) :
    ∃ d outer, t.deltas = d :: outer ∧ d.Spans base.table t.table := by
  cases recalls with
  | session earlier continues =>
    have sound := earlier.sound
    cases continues with
    | session _ spans => exact ⟨_, _, rfl, spans base.table sound (Delta.spans_empty base.table)⟩

end Tracked

namespace Database

variable {base db : Database} {saved : List Database} {k : Kind}

def trail : List Call → Database → List Database → Database × List Database
  | [], db, saved => (db, saved)
  | call :: calls, db, saved => trail calls (call.run db).2 (call.openings db saved)

theorem trail_recalls (calls : List Call) (recalls : db.Recalls saved) :
    (trail calls db saved).1.Recalls (trail calls db saved).2 := by
  induction calls generalizing db saved with
  | nil => exact recalls
  | cons call calls ih => exact ih (run_recalls recalls call)

-- `base` is the database in which the innermost session of `db` began.
structure NetDifference (base db : Database) : Prop where
  created : ∀ id, id ∈ db.createdIds ↔ (db.findAny id).isSome ∧ base.findAny id = none
  removed : ∀ id r, r ∈ db.removedRows ∧ r.id = id ↔ base.findAny id = some r ∧ db.findAny id = none
  modified : ∀ id ∈ db.modifiedIds, (base.findAny id).isSome ∧ (db.findAny id).isSome
  unmodified : ∀ id before after, base.findAny id = some before → db.findAny id = some after →
    before ≠ after → id ∈ db.modifiedIds
  images : ∀ k n row, (db.pending k).modified.get? n = some row → base.findAny (k.id n) = some ⟨k, row⟩
  apart : (db.createdIds ++ db.modifiedIds ++ db.removedRows.map AnyRow.id).Nodup
  counters : ∀ k, db.next k ≠ base.next k → (db.pending k).next? = some (base.next k)

theorem Recalls.spans (recalls : db.Recalls (base :: saved)) {t u : Tracked k.Row}
    (before : base.tables.get k = some t) (now : db.tables.get k = some u) :
    (db.pending k).Spans t.table u.table := by
  cases recalls with
  | session earlier continues =>
    have related := continues.opened k
    rw [before, now] at related
    unfold pending
    rw [now]
    cases related with
    | some one =>
      cases one with
      | session _ spans => exact spans t.table (earlier.sound.table k t before) (Delta.spans_empty t.table)

theorem Recalls.base_sound (recalls : db.Recalls (base :: saved)) : base.Sound := by
  cases recalls with
  | session earlier _ => exact earlier.sound

theorem Recalls.missing_iff (recalls : db.Recalls (base :: saved)) (k : Kind) :
    base.tables.get k = none ↔ db.tables.get k = none := by
  cases recalls with
  | session earlier continues =>
    have related := continues.opened k
    generalize base.tables.get k = a at related
    generalize db.tables.get k = b at related
    cases related with
    | none => rfl
    | some one => simp

-- A kind that is not registered now was not registered then, and nothing is said of it.
theorem Recalls.by_kind (recalls : db.Recalls (base :: saved)) (k : Kind) :
    (base.tables.get k = none ∧ db.tables.get k = none ∧ db.pending k = .empty) ∨
      ∃ t u, base.tables.get k = some t ∧ db.tables.get k = some u ∧
        (db.pending k).Spans t.table u.table := by
  cases now : db.tables.get k with
  | none => exact .inl ⟨(recalls.missing_iff k).mpr now, rfl, by unfold pending; rw [now]⟩
  | some u =>
    cases before : base.tables.get k with
    | none => rw [(recalls.missing_iff k).mp before] at now; cases now
    | some t => exact .inr ⟨t, u, rfl, rfl, recalls.spans before now⟩

theorem Recalls.explains (recalls : db.Recalls (base :: saved)) (k : Kind) (n : Nat) :
    ((db.pending k).trace n).Explains (base.row? k n) (db.row? k n) := by
  rcases recalls.by_kind k with ⟨before, now, nothing⟩ | ⟨t, u, before, now, spans⟩
  · rw [row?_of_missing before, row?_of_missing now, nothing]
    exact .absent
  · rw [row?_of_held before, row?_of_held now]
    exact spans.explained n

theorem Recalls.counts (recalls : db.Recalls (base :: saved)) (k : Kind) :
    (db.pending k).next?.getD (db.next k) = base.next k := by
  rcases recalls.by_kind k with ⟨before, now, nothing⟩ | ⟨t, u, before, now, spans⟩
  · rw [next, next, before, now, nothing]
    rfl
  · rw [next_of_held before, next_of_held now]
    exact spans.counter

theorem createdIds_eq (db : Database) : db.createdIds = Kind.idsOf fun k => (db.pending k).created.toList := rfl

theorem modifiedIds_eq (db : Database) : db.modifiedIds = Kind.idsOf fun k => (db.pending k).modified.keys := rfl

theorem id_mem_createdIds {n : Nat} : k.id n ∈ db.createdIds ↔ ((db.pending k).trace n).created = true := by
  rw [createdIds_eq, Kind.id_mem_idsOf]
  exact SortedSet.mem_toList_iff _ n

theorem id_mem_modifiedIds {n : Nat} :
    k.id n ∈ db.modifiedIds ↔ ∃ row, ((db.pending k).trace n).modified? = some row := by
  rw [modifiedIds_eq, Kind.id_mem_idsOf]
  exact SortedMap.mem_keys_iff _ n

theorem mem_removedRows_iff {r : AnyRow} :
    r ∈ db.removedRows ↔ ∃ n, ((db.pending r.kind).trace n).removed? = some r.row := by
  simp only [removedRows, List.mem_flatMap, List.mem_map, SortedMap.mem_values_iff]
  constructor
  · intro given
    obtain ⟨k, -, row, kept, rfl⟩ := given
    exact kept
  · intro given
    exact ⟨r.kind, Kind.mem_all r.kind, r.row, given, rfl⟩

theorem Recalls.removed_iff (recalls : db.Recalls (base :: saved)) {r : AnyRow} {n : Nat} :
    ((db.pending r.kind).trace n).removed? = some r.row ↔
      r.id = r.kind.id n ∧ r ∈ db.removedRows := by
  have numbered : ∀ m, ((db.pending r.kind).trace m).removed? = some r.row → Stored.number r.row = m := by
    intro m image
    have there := ((recalls.explains r.kind m).removed_iff.mp image).1
    exact recalls.base_sound.numbered there
  rw [mem_removedRows_iff]
  constructor
  · intro image
    exact ⟨Kind.id_inj.mpr ⟨rfl, numbered n image⟩, n, image⟩
  · intro given
    obtain ⟨same, m, image⟩ := given
    rw [← (Kind.id_inj.mp same).2, numbered m image]
    exact image

theorem Recalls.removedIds_eq (recalls : db.Recalls (base :: saved)) :
    db.removedRows.map AnyRow.id = Kind.idsOf fun k => (db.pending k).removed.keys := by
  simp only [removedRows, Kind.idsOf, List.map_flatMap, List.map_map]
  refine congrArg (Kind.all.flatMap ·) (funext fun k => ?_)
  unfold SortedMap.values SortedMap.keys
  rw [List.map_map, List.map_map]
  refine List.map_congr_left fun e member => ?_
  have image := ((db.pending k).removed.mem_entries_iff e.1 e.2).mp member
  have there := ((recalls.explains k e.1).removed_iff.mp image).1
  exact Kind.id_inj.mpr ⟨rfl, recalls.base_sound.numbered there⟩

theorem Recalls.mem_createdIds (recalls : db.Recalls (base :: saved)) {id : ObjectId} :
    id ∈ db.createdIds ↔ (db.findAny id).isSome ∧ base.findAny id = none := by
  have numbered : ∀ (k : Kind) (n : Nat), k.id n ∈ db.createdIds ↔
      (db.findAny (k.id n)).isSome ∧ base.findAny (k.id n) = none := by
    intro k n
    rw [id_mem_createdIds, (recalls.explains k n).created_iff, findAny_id, findAny_id, Option.isSome_map,
      Option.map_eq_none_iff]
  constructor
  · intro member
    obtain ⟨k, n, rfl, -⟩ := Kind.mem_idsOf.mp member
    exact (numbered k n).mp member
  · intro given
    obtain ⟨r, found⟩ := Option.isSome_iff_exists.mp given.1
    obtain ⟨n, rfl, -⟩ := findAny_eq_some_iff.mp found
    exact (numbered r.kind n).mpr given

theorem Recalls.mem_removedRows (recalls : db.Recalls (base :: saved)) {id : ObjectId} {r : AnyRow} :
    r ∈ db.removedRows ∧ r.id = id ↔ base.findAny id = some r ∧ db.findAny id = none := by
  constructor
  · intro given
    obtain ⟨member, rfl⟩ := given
    have image := recalls.removed_iff.mpr ⟨rfl, member⟩
    obtain ⟨there, gone⟩ := (recalls.explains r.kind (Stored.number r.row)).removed_iff.mp image
    change base.findAny (r.kind.id (Stored.number r.row)) = some r ∧
      db.findAny (r.kind.id (Stored.number r.row)) = none
    rw [findAny_id, findAny_id, there, gone]
    exact ⟨rfl, rfl⟩
  · intro given
    obtain ⟨found, missing⟩ := given
    obtain ⟨n, rfl, there⟩ := findAny_eq_some_iff.mp found
    rw [findAny_id, Option.map_eq_none_iff] at missing
    obtain ⟨same, member⟩ := recalls.removed_iff.mp
      ((recalls.explains r.kind n).removed_iff.mpr ⟨there, missing⟩)
    exact ⟨member, same⟩

theorem Recalls.kept_of_modifiedIds (recalls : db.Recalls (base :: saved)) {id : ObjectId}
    (member : id ∈ db.modifiedIds) : (base.findAny id).isSome ∧ (db.findAny id).isSome := by
  obtain ⟨k, n, rfl, -⟩ := Kind.mem_idsOf.mp member
  obtain ⟨row, image⟩ := id_mem_modifiedIds.mp member
  obtain ⟨there, still⟩ := (recalls.explains k n).kept_of_modified image
  rw [findAny_id, findAny_id, there, Option.isSome_map, Option.isSome_map]
  exact ⟨rfl, still⟩

theorem Recalls.mem_modifiedIds_of_ne (recalls : db.Recalls (base :: saved)) {id : ObjectId}
    {before after : AnyRow} (found : base.findAny id = some before) (now : db.findAny id = some after)
    (different : before ≠ after) : id ∈ db.modifiedIds := by
  obtain ⟨n, rfl, there⟩ := findAny_eq_some_iff.mp found
  rw [findAny_id, Option.map_eq_some_iff] at now
  obtain ⟨row, still, rfl⟩ := now
  have explains := recalls.explains before.kind n
  rw [there, still] at explains
  rw [id_mem_modifiedIds]
  cases image : ((db.pending before.kind).trace n).modified? with
  | some earlier => exact ⟨earlier, rfl⟩
  | none => exact absurd (congrArg (AnyRow.mk before.kind) (explains.same_of_unmodified image)) different

theorem Recalls.apart (recalls : db.Recalls (base :: saved)) :
    (db.createdIds ++ db.modifiedIds ++ db.removedRows.map AnyRow.id).Nodup := by
  have created : db.createdIds.Nodup := Kind.nodup_idsOf fun k => (db.pending k).created.nodup_toList
  have modified : db.modifiedIds.Nodup := Kind.nodup_idsOf fun k => (db.pending k).modified.nodup_keys
  have removed : (db.removedRows.map AnyRow.id).Nodup := by
    rw [recalls.removedIds_eq]
    exact Kind.nodup_idsOf fun k => (db.pending k).removed.nodup_keys
  refine nodup_changes base.findAny db.findAny created modified removed
    (fun id new => (recalls.mem_createdIds.mp new).2) (fun id changed => recalls.kept_of_modifiedIds changed)
    fun id old => ?_
  obtain ⟨r, member, same⟩ := List.mem_map.mp old
  obtain ⟨there, missing⟩ := recalls.mem_removedRows.mp ⟨member, same⟩
  exact ⟨Option.isSome_of_eq_some there, missing⟩

theorem Recalls.netDifference (recalls : db.Recalls (base :: saved)) : base.NetDifference db where
  created _ := recalls.mem_createdIds
  removed _ _ := recalls.mem_removedRows
  modified _ member := recalls.kept_of_modifiedIds member
  unmodified _ _ _ found now different := recalls.mem_modifiedIds_of_ne found now different
  images k n row image := by
    rw [findAny_id, ((recalls.explains k n).kept_of_modified image).1]
    rfl
  apart := recalls.apart
  counters k grown := (Option.getD_eq_iff.mp (recalls.counts k)).resolve_right fun same => grown same.2

-- Any run of calls with a session open at its end, on a table of records of any type or on all kinds of a ledger.
theorem pending_is_net_difference :
    (∀ (α : Type) [Stored α] (depth : Nat) (calls : List (Tracked.Call α)) (base : Tracked α)
      (outer : List (Tracked α)),
      Tracked.openingsAfter calls (.empty depth) (Tracked.joined depth) = base :: outer →
        ∃ d rest, (Tracked.runAll calls (.empty depth)).deltas = d :: rest ∧
          d.NetDifference base.table (Tracked.runAll calls (.empty depth)).table) ∧
    (∀ (kinds : List Kind) (calls : List Call) (base : Database) (outer : List Database),
      (trail calls (opened kinds) []).2 = base :: outer →
        base.NetDifference (trail calls (opened kinds) []).1) := by
  constructor
  · intro α _ depth calls base outer begun
    have recalls := Tracked.runAll_recalls calls (Tracked.empty_recalls (α := α) depth)
    rw [begun] at recalls
    obtain ⟨d, rest, open_, spans⟩ := recalls.spans
    exact ⟨d, rest, open_, spans.netDifference⟩
  · intro kinds calls base outer begun
    have recalls := trail_recalls calls (opened_recalls kinds)
    rw [begun] at recalls
    exact recalls.netDifference

-- Two sports; then a session that renames one, removes the other and creates a third, which gets the
-- number that an inner session has given back.
def sportCalls : List Call :=
  let named (name : String) (s : Sport) : Sport := { s with name := ⟨.ofList [("en", name)]⟩ }
  [.create .sport (named "chess"), .create .sport (named "go"), .push,
    .modify .sport (Kind.sport.id 0) (named "draughts"), .remove .sport (Kind.sport.id 1),
    .push, .create .sport (named "polo"), .undo, .push, .create .sport (named "golf"), .commit]

def sportEdits : List (Tracked.Call Sport) := [.create id, .push, .remove 0, .push, .create id, .commit]

theorem pending_is_net_difference_sports :
    (∃ base d rest, Tracked.openingsAfter sportEdits (.empty 0) (Tracked.joined 0) = [base] ∧
      (Tracked.runAll sportEdits (.empty 0)).deltas = d :: rest ∧ d.created.toList = [1] ∧ d.removed.keys = [0] ∧
      d.NetDifference base.table (Tracked.runAll sportEdits (.empty 0)).table) ∧
    ∃ base, (trail sportCalls (opened [.sport]) []).2 = [base] ∧
      (trail sportCalls (opened [.sport]) []).1.createdIds = [Kind.sport.id 2] ∧
      (trail sportCalls (opened [.sport]) []).1.modifiedIds = [Kind.sport.id 0] ∧
      (trail sportCalls (opened [.sport]) []).1.removedRows.map AnyRow.id = [Kind.sport.id 1] ∧
      base.NetDifference (trail sportCalls (opened [.sport]) []).1 := by
  obtain ⟨table, ledger⟩ := pending_is_net_difference
  constructor
  · obtain ⟨d, rest, deltas, difference⟩ := table Sport 0 sportEdits _ [] rfl
    have told : (Tracked.runAll sportEdits (.empty 0)).deltas.map (fun d => (d.created.toList, d.removed.keys)) =
        [([1], [0])] := by decide
    rw [deltas, List.map_cons] at told
    obtain ⟨created, removed⟩ := Prod.mk.inj (List.cons.inj told).1
    exact ⟨_, d, rest, rfl, deltas, created, removed, difference⟩
  · exact ⟨_, rfl, by decide, by decide, by decide, ledger [.sport] sportCalls _ [] rfl⟩

end Database

end RoomLedger
