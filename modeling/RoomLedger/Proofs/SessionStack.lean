import RoomLedger.Store.Database
import RoomLedger.Proofs.DeltaTrace

namespace RoomLedger

open Std

namespace Tracked

variable {α : Type} [Stored α] {t u v : Tracked α}

-- `u` is what `t` becomes by changes in the innermost session, if one is open.
inductive Continues : Tracked α → Tracked α → Prop where
  | final {t u : Table α} (sound : u.Sound) : Continues ⟨t, []⟩ ⟨u, []⟩
  | session {t u : Table α} {d e : Delta α} {outer : List (Delta α)} (sound : u.Sound)
      (spans : ∀ s : Table α, s.Sound → d.Spans s t → e.Spans s u) :
      Continues ⟨t, d :: outer⟩ ⟨u, e :: outer⟩

theorem Continues.refl (sound : t.table.Sound) : t.Continues t := by
  obtain ⟨table, deltas⟩ := t
  cases deltas with
  | nil => exact .final sound
  | cons d outer => exact .session sound fun _ _ spans => spans

theorem Continues.trans (first : t.Continues u) (second : u.Continues v) : t.Continues v := by
  cases first with
  | final _ =>
    cases second with
    | final sound => exact .final sound
  | session _ early =>
    cases second with
    | session sound late => exact .session sound fun s before spans => late s before (early s before spans)

theorem Continues.sound (continues : t.Continues u) : u.table.Sound := by
  cases continues with
  | final sound => exact sound
  | session sound _ => exact sound

theorem Continues.length (continues : t.Continues u) : u.deltas.length = t.deltas.length := by
  cases continues with
  | final _ => rfl
  | session _ _ => rfl

theorem continues_note {t u : Table α} {deltas : List (Delta α)} {change : Delta α → Delta α}
    (sound : u.Sound) (spans : ∀ (d : Delta α) (s : Table α), s.Sound → d.Spans s t → (change d).Spans s u) :
    Continues ⟨t, deltas⟩ ⟨u, note deltas change⟩ := by
  cases deltas with
  | nil => exact .final sound
  | cons d outer => exact .session sound (spans d)

theorem create_continues (sound : t.table.Sound) {fill : α → α} {row : α} {table : Table α}
    (made : t.table.create fill = .ok (row, table)) :
    t.Continues ⟨table, note t.deltas (·.noteCreated (Stored.number row) t.table.next)⟩ := by
  obtain ⟨number, -, sets, counted⟩ := Table.create_sets sound made
  apply continues_note sets.sound
  intro d s before spans
  rw [number]
  exact spans.noteCreated before sound sets counted

theorem modify_continues (sound : t.table.Sound) {n : Nat} {change : α → α} {before : α} {table : Table α}
    (made : t.table.modify n change = .ok (before, table)) :
    t.Continues ⟨table, note t.deltas (·.noteModified n before)⟩ := by
  obtain ⟨found, sets, counted⟩ := Table.modify_sets sound made
  exact continues_note sets.sound fun d s _ spans => spans.noteModified found sets counted

theorem remove_continues (sound : t.table.Sound) {n : Nat} {row : α} {table : Table α}
    (made : t.table.remove n = .ok (row, table)) :
    t.Continues ⟨table, note t.deltas (·.noteRemoved n row)⟩ := by
  obtain ⟨found, sets, counted⟩ := Table.remove_sets sound made
  exact continues_note sets.sound fun d s _ spans => spans.noteRemoved found sets counted

-- A session that has been going on since `t` ...
theorem commit_continues (sound : t.table.Sound) (continues : t.push.Continues u) :
    t.Continues u.commit := by
  obtain ⟨table, deltas⟩ := t
  cases continues with
  | session after spans =>
    have inner := spans table sound (Delta.spans_empty table)
    cases deltas with
    | nil => exact .final after
    | cons d outer => exact .session after fun s before first => first.absorb inner before

-- ... ends in a change of the session around it, or as if it had not been.
theorem undo_continues (sound : t.table.Sound) (continues : t.push.Continues u) : u.undo = .ok t := by
  obtain ⟨table, deltas⟩ := t
  cases continues with
  | session after spans =>
    have inner := spans table sound (Delta.spans_empty table)
    simp only [undo]
    rw [inner.revert sound after.toCoherent]
    rfl

end Tracked

namespace Database

variable {db mid after : Database} {k : Kind}

structure Sound (db : Database) : Prop where
  table : ∀ k t, db.tables.get k = some t → t.table.Sound
  aligned : ∀ k t, db.tables.get k = some t → t.deltas.length = db.depth

-- `after` is what `db` becomes by changes in the innermost session, if one is open.
structure Continues (db after : Database) : Prop where
  depth : after.depth = db.depth
  tables : ∀ k, Option.Rel Tracked.Continues (db.tables.get k) (after.tables.get k)

theorem Continues.refl (sound : db.Sound) : db.Continues db := by
  refine ⟨rfl, fun k => ?_⟩
  cases held : db.tables.get k with
  | none => exact .none
  | some t => exact .some (.refl (sound.table k t held))

theorem Continues.trans (first : db.Continues mid) (second : mid.Continues after) : db.Continues after := by
  refine ⟨second.depth.trans first.depth, fun k => ?_⟩
  have early := first.tables k
  have late := second.tables k
  generalize db.tables.get k = a at early
  generalize mid.tables.get k = b at early late
  generalize after.tables.get k = c at late
  cases early with
  | none => exact late
  | some one =>
    cases late with
    | some two => exact .some (one.trans two)

theorem Continues.sound (continues : db.Continues after) (sound : db.Sound) : after.Sound := by
  have each : ∀ k t, after.tables.get k = some t → t.table.Sound ∧ t.deltas.length = after.depth := by
    intro k t held
    have related := continues.tables k
    rw [held] at related
    generalize before : db.tables.get k = a at related
    cases related with
    | some one =>
      refine ⟨one.sound, ?_⟩
      rw [one.length, continues.depth]
      exact sound.aligned k _ before
  exact ⟨fun k t held => (each k t held).1, fun k t held => (each k t held).2⟩

theorem continues_set (sound : db.Sound) {t u : Tracked k.Row} (held : db.tables.get k = some t)
    (continues : t.Continues u) : db.Continues { db with tables := db.tables.set k (some u) } := by
  refine ⟨rfl, fun j => ?_⟩
  change Option.Rel _ (db.tables.get j) ((db.tables.set k (some u)).get j)
  by_cases same : j = k
  · subst same
    rw [PerKind.get_set_self, held]
    exact .some continues
  · rw [PerKind.get_set_of_ne _ same]
    exact (Continues.refl sound).tables j

theorem empty_sound : empty.Sound := by
  have none : ∀ k t, empty.tables.get k ≠ some t := by simp [empty]
  exact ⟨fun k t held => absurd held (none k t), fun k t held => absurd held (none k t)⟩

theorem depth_register (db : Database) (k : Kind) : (db.register k).depth = db.depth := by
  unfold register
  split <;> rfl

theorem register_sound (sound : db.Sound) (k : Kind) : (db.register k).Sound := by
  have each : ∀ j t, (db.register k).tables.get j = some t → t.table.Sound ∧ t.deltas.length = db.depth := by
    intro j t held
    unfold register at held
    split at held
    · exact ⟨sound.table j t held, sound.aligned j t held⟩
    · by_cases same : j = k
      · subst same
        rw [PerKind.get_set_self] at held
        cases held
        exact ⟨Table.empty_sound, List.length_replicate ..⟩
      · rw [PerKind.get_set_of_ne _ same] at held
        exact ⟨sound.table j t held, sound.aligned j t held⟩
  refine ⟨fun j t held => (each j t held).1, fun j t held => ?_⟩
  rw [depth_register]
  exact (each j t held).2

theorem foldl_register_sound (kinds : List Kind) (sound : db.Sound) :
    (kinds.foldl register db).Sound ∧ (kinds.foldl register db).depth = db.depth := by
  induction kinds generalizing db with
  | nil => exact ⟨sound, rfl⟩
  | cons k kinds ih =>
    obtain ⟨rest, depth⟩ := ih (register_sound sound k)
    exact ⟨rest, by rw [List.foldl_cons, depth, depth_register]⟩

theorem create_apply (k : Kind) (fill : k.Row → k.Row) (db : Database) :
    create k fill db = match db.tables.get k with
      | none => (.error (.unknownType k), db)
      | some t =>
        match t.table.create fill with
        | .error fault => (.error (.ofTable k fault), db)
        | .ok (row, table) =>
          let deltas := Tracked.note t.deltas (·.noteCreated (Stored.number row) t.table.next)
          (.ok row, { db with tables := db.tables.set k (some ⟨table, deltas⟩) }) := by
  unfold create tracked Tracked.create
  cases db.tables.get k with
  | none => rfl
  | some t => dsimp only; cases t.table.create fill <;> rfl

theorem modify_apply (k : Kind) (id : ObjectId) (change : k.Row → k.Row) (db : Database) :
    modify k id change db = match numberOf k id with
      | .error e => (.error e, db)
      | .ok n =>
        match db.tables.get k with
        | none => (.error (.unknownType k), db)
        | some t =>
          match t.table.modify n change with
          | .error fault => (.error (.ofTable k fault), db)
          | .ok (before, table) =>
            let deltas := Tracked.note t.deltas (·.noteModified n before)
            (.ok (), { db with tables := db.tables.set k (some ⟨table, deltas⟩) }) := by
  unfold modify tracked
  cases numberOf k id with
  | error e => rfl
  | ok n =>
    cases db.tables.get k with
    | none => rfl
    | some t =>
      dsimp only [bind, Except.bind, pure, Except.pure, Tracked.modify]
      cases t.table.modify n change <;> rfl

theorem remove_apply (k : Kind) (id : ObjectId) (db : Database) :
    remove k id db = match numberOf k id with
      | .error e => (.error e, db)
      | .ok n =>
        match db.tables.get k with
        | none => (.error (.unknownType k), db)
        | some t =>
          match t.table.remove n with
          | .error fault => (.error (.ofTable k fault), db)
          | .ok (row, table) =>
            let deltas := Tracked.note t.deltas (·.noteRemoved n row)
            (.ok row, { db with tables := db.tables.set k (some ⟨table, deltas⟩) }) := by
  unfold remove tracked
  cases numberOf k id with
  | error e => rfl
  | ok n =>
    cases db.tables.get k with
    | none => rfl
    | some t =>
      dsimp only [bind, Except.bind, pure, Except.pure, Tracked.remove]
      cases t.table.remove n <;> rfl

theorem create_continues (sound : db.Sound) (fill : k.Row → k.Row) :
    db.Continues (create k fill db).2 := by
  rw [create_apply]
  split
  · exact .refl sound
  · rename_i t held
    split
    · exact .refl sound
    · rename_i made
      exact continues_set sound held (Tracked.create_continues (sound.table k t held) made)

theorem modify_continues (sound : db.Sound) (id : ObjectId) (change : k.Row → k.Row) :
    db.Continues (modify k id change db).2 := by
  rw [modify_apply]
  split
  · exact .refl sound
  · split
    · exact .refl sound
    · rename_i t held
      split
      · exact .refl sound
      · rename_i made
        exact continues_set sound held (Tracked.modify_continues (sound.table k t held) made)

theorem remove_continues (sound : db.Sound) (id : ObjectId) : db.Continues (remove k id db).2 := by
  rw [remove_apply]
  split
  · exact .refl sound
  · split
    · exact .refl sound
    · rename_i t held
      split
      · exact .refl sound
      · rename_i made
        exact continues_set sound held (Tracked.remove_continues (sound.table k t held) made)

-- The records, counters and listings, without what the open sessions changed in them.
abbrev Contents := PerKind fun k => Option (Table k.Row)

def contents (db : Database) : Contents := .ofFn fun k => (db.tables.get k).map (·.table)

theorem get_contents (db : Database) (k : Kind) :
    db.contents.get k = (db.tables.get k).map (·.table) := PerKind.get_ofFn ..

theorem contents_push (db : Database) : db.push.contents = db.contents := by
  apply PerKind.ext_get
  intro k
  rw [get_contents, get_contents]
  simp only [push, PerKind.get_ofFn, Option.map_map]
  rfl

theorem table_commit {α : Type} [Stored α] (t : Tracked α) : t.commit.table = t.table := by
  unfold Tracked.commit
  split <;> rfl

theorem contents_commit (db : Database) : (commit db).2.contents = db.contents := by
  unfold commit
  split
  · rfl
  · apply PerKind.ext_get
    intro k
    simp only [get_contents, PerKind.get_ofFn, Option.map_map, Function.comp_def, table_commit]

theorem push_sound (sound : db.Sound) : db.push.Sound := by
  have each : ∀ k t, db.push.tables.get k = some t →
      t.table.Sound ∧ t.deltas.length = db.push.depth := by
    intro k t held
    simp only [push, PerKind.get_ofFn, Option.map_eq_some_iff] at held
    obtain ⟨u, before, rfl⟩ := held
    refine ⟨sound.table k u before, ?_⟩
    simp [Tracked.push, push, sound.aligned k u before]
  exact ⟨fun k t held => (each k t held).1, fun k t held => (each k t held).2⟩

theorem Continues.opened (continues : db.push.Continues mid) (k : Kind) :
    Option.Rel (fun t u => Tracked.Continues (Tracked.push t) u) (db.tables.get k) (mid.tables.get k) := by
  have related := continues.tables k
  simp only [push, PerKind.get_ofFn] at related
  generalize db.tables.get k = a at related
  generalize mid.tables.get k = b at related
  cases a with
  | none => cases related; exact .none
  | some t => cases related with | some one => exact .some one

theorem commit_of_continues (sound : db.Sound) (continues : db.push.Continues mid) :
    ∃ after, commit mid = (.ok (), after) ∧ db.Continues after := by
  have depth : mid.depth = db.depth + 1 := continues.depth
  refine ⟨_, if_neg (by omega), by simp [depth], fun k => ?_⟩
  simp only [PerKind.get_ofFn]
  have related := continues.opened k
  generalize held : db.tables.get k = a at related
  generalize mid.tables.get k = b at related
  cases related with
  | none => exact .none
  | some one => exact .some (Tracked.commit_continues (sound.table k _ held) one)

-- Each kind is either still to be taken back, or already as it was.
theorem revertedFrom_eq (undone : ∀ k, Option.Rel (fun t u => Tracked.undo u = .ok t) (db.tables.get k)
    (mid.tables.get k)) (kinds : List Kind) (tables : PerKind fun k => Option (Tracked k.Row))
    (partly : ∀ k, tables.get k = db.tables.get k ∨ k ∈ kinds ∧ tables.get k = mid.tables.get k) :
    kinds.foldlM (fun tables k =>
      match mid.tables.get k with
      | none => Except.ok tables
      | some t =>
        match t.undo with
        | .ok t => .ok (tables.set k (some t))
        | .error fault => .error (undoFault k fault)) tables = .ok db.tables := by
  induction kinds generalizing tables with
  | nil =>
    refine congrArg Except.ok (PerKind.ext_get fun k => ?_)
    rcases partly k with done | ⟨waiting, -⟩
    · exact done
    · cases waiting
  | cons k kinds ih =>
    have related := undone k
    rw [List.foldlM_cons]
    generalize before : db.tables.get k = a at related
    generalize now : mid.tables.get k = b at related
    cases related with
    | none =>
      apply ih tables
      intro j
      rcases partly j with done | ⟨waiting, same⟩
      · exact .inl done
      · rcases List.mem_cons.mp waiting with rfl | waiting
        · exact .inl (by rw [same, now, before])
        · exact .inr ⟨waiting, same⟩
    | some one =>
      -- Kind `k` is back now; the others are as they were, done or waiting.
      simp only [one]
      apply ih _
      intro j
      by_cases same : j = k
      · subst same
        exact .inl (by rw [PerKind.get_set_self, before])
      · rw [PerKind.get_set_of_ne _ same]
        rcases partly j with done | ⟨waiting, same'⟩
        · exact .inl done
        · rcases List.mem_cons.mp waiting with rfl | waiting
          · exact absurd rfl same
          · exact .inr ⟨waiting, same'⟩

theorem reverted_eq (undone : ∀ k, Option.Rel (fun t u => Tracked.undo u = .ok t) (db.tables.get k)
    (mid.tables.get k)) : mid.reverted = .ok db.tables :=
  revertedFrom_eq undone Kind.all mid.tables fun k => .inr ⟨Kind.mem_all k, rfl⟩

theorem undo_of_undone (depth : mid.depth = db.depth + 1)
    (undone : ∀ k, Option.Rel (fun t u => Tracked.undo u = .ok t) (db.tables.get k) (mid.tables.get k)) :
    undo mid = (.ok (), db) := by
  unfold undo
  rw [if_neg (by omega), reverted_eq undone, depth]
  rfl

theorem Continues.undone (continues : db.push.Continues mid) (sound : db.Sound) (k : Kind) :
    Option.Rel (fun t u => Tracked.undo u = .ok t) (db.tables.get k) (mid.tables.get k) := by
  have related := continues.opened k
  generalize held : db.tables.get k = a at related
  generalize mid.tables.get k = b at related
  cases related with
  | none => exact .none
  | some one => exact .some (Tracked.undo_continues (sound.table k _ held) one)

theorem undo_of_continues (sound : db.Sound) (continues : db.push.Continues mid) :
    undo mid = (.ok (), db) := undo_of_undone continues.depth (continues.undone sound)

end Database

end RoomLedger
