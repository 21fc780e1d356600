import RoomLedger.Proofs.UniformChanges

namespace RoomLedger

open Database

namespace Delta

variable {α : Type}

namespace Trace

variable {a b c : Trace α} {first second third last : Option α}

theorem absorb_assoc (outer : a.Explains first second) (middle : b.Explains second third)
    (inner : c.Explains third last) (fresh : b.created = true → first = none)
    (fresh' : c.created = true → first = none ∧ second = none) :
    (a.absorb b).absorb c = a.absorb (b.absorb c) := by
  cases outer <;> cases middle <;> cases inner <;> try rfl
  -- In the ways that are left a number would be given out again.
  all_goals simp at fresh fresh'

theorem absorb_nothing (t : Trace α) : t.absorb ⟨none, false, none⟩ = t := rfl

end Trace

theorem ext_trace {d e : Delta α} (next : d.next? = e.next?) (traces : ∀ n, d.trace n = e.trace n) : d = e := by
  obtain ⟨next?, modified, created, removed⟩ := d
  obtain ⟨next?', modified', created', removed'⟩ := e
  cases next
  have same : modified = modified' := SortedMap.ext_get? fun n => congrArg Trace.modified? (traces n)
  have same' : created = created' := SortedSet.ext_contains fun n => congrArg Trace.created (traces n)
  have same'' : removed = removed' := SortedMap.ext_get? fun n => congrArg Trace.removed? (traces n)
  rw [same, same', same'']

theorem absorb_empty (d : Delta α) : d.absorb .empty = d := by
  refine ext_trace ?_ fun n => ?_
  · rw [next?_absorb]
    exact Option.or_none
  · rw [trace_absorb]
    exact Trace.absorb_nothing _

variable [Stored α] {d₀ d₁ d₂ : Delta α} {r s t u : Table α}

theorem Spans.absorb_assoc (outer : d₂.Spans r s) (middle : d₁.Spans s t) (inner : d₀.Spans t u) (sound : r.Sound)
    (sound' : s.Sound) : (d₂.absorb d₁).absorb d₀ = d₂.absorb (d₁.absorb d₀) := by
  have grown := outer.grown
  have grown' := middle.grown
  refine ext_trace ?_ fun n => ?_
  · rw [next?_absorb, next?_absorb, next?_absorb, next?_absorb, Option.or_assoc]
  · simp only [trace_absorb]
    refine Trace.absorb_assoc (outer.explained n) (middle.explained n) (inner.explained n) (fun created => ?_)
      fun created => ⟨?_, ?_⟩
    · exact get?_of_fresh sound (Nat.le_trans grown (middle.fresh n created))
    · exact get?_of_fresh sound (Nat.le_trans (Nat.le_trans grown grown') (inner.fresh n created))
    · exact get?_of_fresh sound' (Nat.le_trans grown' (inner.fresh n created))

-- Merges the session at a place, counted from within, into the one around it.
def mergeAt : Nat → List (Delta α) → List (Delta α)
  | 0, inner :: outer :: rest => outer.absorb inner :: rest
  | n + 1, d :: rest => d :: mergeAt n rest
  | _, deltas => deltas

omit [Stored α] in
theorem length_mergeAt {n : Nat} {deltas : List (Delta α)} (inside : n + 1 < deltas.length) :
    (mergeAt n deltas).length = deltas.length - 1 := by
  induction n generalizing deltas with
  | zero =>
    obtain _ | ⟨inner, _ | ⟨outer, rest⟩⟩ := deltas
    · cases inside
    · simp at inside
    · rfl
  | succ n ih =>
    obtain _ | ⟨d, rest⟩ := deltas
    · cases inside
    · simp only [List.length_cons] at inside
      simp only [mergeAt, List.length_cons, ih (by omega : n + 1 < rest.length)]
      omega

end Delta

namespace Tracked

variable {α : Type} [Stored α] {t : Tracked α} {n : Nat}

def merge (n : Nat) (t : Tracked α) : Tracked α := { t with deltas := Delta.mergeAt n t.deltas }

omit [Stored α] in
@[simp] theorem table_merge (n : Nat) (t : Tracked α) : (t.merge n).table = t.table := rfl

-- Each delta explains what has become of the table since the session began.
inductive Layered : Tracked α → Prop where
  | outside {t : Table α} : Layered ⟨t, []⟩
  | session {s t : Table α} {d : Delta α} {outer : List (Delta α)} (earlier : Layered ⟨s, outer⟩)
      (sound : s.Sound) (spans : d.Spans s t) : Layered ⟨t, d :: outer⟩

-- A change is noted in the sessions merged as it is noted before they are.
def Merges (n : Nat) (deltas : List (Delta α)) (change : Delta α → Delta α) : Prop :=
  note (Delta.mergeAt n deltas) change = Delta.mergeAt n (note deltas change)

omit [Stored α] in
-- It goes into the innermost delta; so that is clear unless that one is merged.
theorem merges_succ (deltas : List (Delta α)) (change : Delta α → Delta α) : Merges (n + 1) deltas change := by
  cases deltas <;> rfl

omit [Stored α] in
theorem merge_push (t : Tracked α) (opened : t.deltas ≠ []) : t.push.merge 0 = t := by
  obtain ⟨table, _ | ⟨d, outer⟩⟩ := t
  · exact absurd rfl opened
  · simp only [push, merge, Delta.mergeAt, Delta.absorb_empty]

omit [Stored α] in
theorem commit_eq_merge (t : Tracked α) (nested : 1 < t.deltas.length) : t.commit = t.merge 0 := by
  obtain ⟨table, _ | ⟨inner, _ | ⟨outer, rest⟩⟩⟩ := t
  · cases nested
  · simp at nested
  · rfl

theorem Layered.commit_merge (layered : t.Layered) : (t.merge (n + 1)).commit = t.commit.merge n := by
  cases n with
  | succ n =>
    obtain ⟨table, _ | ⟨inner, _ | ⟨outer, rest⟩⟩⟩ := t <;> rfl
  | zero =>
    cases layered with
    | outside => rfl
    | session layered _ inner =>
      cases layered with
      | outside => rfl
      | session layered sound' middle =>
        cases layered with
        | outside => rfl
        | session _ sound outer =>
          simp only [merge, commit, Delta.mergeAt, outer.absorb_assoc middle inner sound sound']

end Tracked

namespace Database

variable {db base mid : Database} {saved : List Database} {k : Kind} {n : Nat}

def merge (n : Nat) (db : Database) : Database :=
  ⟨.ofFn fun k => (db.tables.get k).map (Tracked.merge n), db.depth - 1⟩

theorem get_merge (n : Nat) (db : Database) (k : Kind) :
    (db.merge n).tables.get k = (db.tables.get k).map (Tracked.merge n) := PerKind.get_ofFn ..

theorem contents_merge (n : Nat) (db : Database) : (db.merge n).contents = db.contents := by
  apply PerKind.ext_get
  intro k
  rw [get_contents, get_contents, get_merge, Option.map_map]
  rfl

theorem ext_tables {db other : Database} (depth : db.depth = other.depth)
    (each : ∀ k, db.tables.get k = other.tables.get k) : db = other := by
  obtain ⟨tables, _⟩ := db
  obtain ⟨tables', _⟩ := other
  have same : tables = tables' := PerKind.ext_get each
  cases depth
  rw [same]

theorem set_merge (n : Nat) (db : Database) (k : Kind) (t : Tracked k.Row) :
    merge n { db with tables := db.tables.set k (some t) } =
      { db.merge n with tables := (db.merge n).tables.set k (some (t.merge n)) } := by
  refine ext_tables rfl fun j => ?_
  rw [get_merge]
  by_cases same : j = k
  · subst same
    rw [PerKind.get_set_self, PerKind.get_set_self]
    rfl
  · rw [PerKind.get_set_of_ne _ same, PerKind.get_set_of_ne _ same, get_merge]

theorem note_merge {t : Tracked k.Row} {change : Delta k.Row → Delta k.Row}
    (merges : Tracked.Merges n t.deltas change) (table : Table k.Row) :
    { db.merge n with tables :=
        (db.merge n).tables.set k (some ⟨table, Tracked.note (t.merge n).deltas change⟩) } =
      merge n { db with tables := db.tables.set k (some ⟨table, Tracked.note t.deltas change⟩) } := by
  have same : Tracked.mk table (Tracked.note (t.merge n).deltas change) =
      (Tracked.mk table (Tracked.note t.deltas change)).merge n := congrArg (Tracked.mk table) merges
  rw [set_merge, same]

theorem create_merge (fill : k.Row → k.Row) (merges : ∀ t row table, db.tables.get k = some t →
    t.table.create fill = .ok (row, table) →
      Tracked.Merges n t.deltas (·.noteCreated (Stored.number row) t.table.next)) :
    create k fill (db.merge n) = ((create k fill db).1, (create k fill db).2.merge n) := by
  rw [create_apply, create_apply, get_merge]
  cases held : db.tables.get k with
  | none => rfl
  | some t =>
    simp only [Option.map_some, Tracked.table_merge]
    cases made : t.table.create fill with
    | error fault => rfl
    | ok result => exact congrArg (Prod.mk _) (note_merge (merges t result.1 result.2 held made) _)

theorem modify_merge (id : ObjectId) (change : k.Row → k.Row) (merges : ∀ number t before table,
    db.tables.get k = some t → t.table.modify number change = .ok (before, table) →
      Tracked.Merges n t.deltas (·.noteModified number before)) :
    modify k id change (db.merge n) = ((modify k id change db).1, (modify k id change db).2.merge n) := by
  rw [modify_apply, modify_apply, get_merge]
  cases numberOf k id with
  | error e => rfl
  | ok number =>
    cases held : db.tables.get k with
    | none => rfl
    | some t =>
      simp only [Option.map_some, Tracked.table_merge]
      cases made : t.table.modify number change with
      | error fault => rfl
      | ok result => exact congrArg (Prod.mk _) (note_merge (merges number t result.1 result.2 held made) _)

theorem remove_merge (id : ObjectId) (merges : ∀ number t row table, db.tables.get k = some t →
    t.table.remove number = .ok (row, table) → Tracked.Merges n t.deltas (·.noteRemoved number row)) :
    remove k id (db.merge n) = ((remove k id db).1, (remove k id db).2.merge n) := by
  rw [remove_apply, remove_apply, get_merge]
  cases numberOf k id with
  | error e => rfl
  | ok number =>
    cases held : db.tables.get k with
    | none => rfl
    | some t =>
      simp only [Option.map_some, Tracked.table_merge]
      cases made : t.table.remove number with
      | error fault => rfl
      | ok result => exact congrArg (Prod.mk _) (note_merge (merges number t result.1 result.2 held made) _)

theorem merge_simulation (n : Nat) : Simulation fun db twin => twin = db.merge (n + 1) := by
  refine ⟨?_, ?_, ?_, ?_⟩
  · rintro db _ rfl
    exact contents_merge _ db
  · rintro db _ k fill rfl
    exact congrArg Prod.snd (create_merge fill fun t _ _ _ _ => Tracked.merges_succ t.deltas _)
  · rintro db _ k id change rfl
    exact congrArg Prod.snd (modify_merge id change fun _ t _ _ _ _ => Tracked.merges_succ t.deltas _)
  · rintro db _ k id rfl
    exact congrArg Prod.snd (remove_merge id fun _ t _ _ _ _ => Tracked.merges_succ t.deltas _)

theorem push_merge (opened : 0 < db.depth) : (db.merge n).push = db.push.merge (n + 1) := by
  refine ext_tables (Nat.sub_add_cancel opened) fun k => ?_
  rw [get_merge]
  simp only [push, PerKind.get_ofFn, get_merge, Option.map_map]
  rfl

theorem merge_push (sound : db.Sound) (opened : 0 < db.depth) : db.push.merge 0 = db := by
  refine ext_tables rfl fun k => ?_
  rw [get_merge]
  simp only [push, PerKind.get_ofFn]
  cases held : db.tables.get k with
  | none => rfl
  | some t =>
    have aligned := sound.aligned k t held
    refine congrArg some (t.merge_push fun none => ?_)
    rw [none] at aligned
    exact absurd aligned.symm (Nat.pos_iff_ne_zero.mp opened)

theorem merge_sound (sound : db.Sound) (inside : n + 1 < db.depth) : (db.merge n).Sound := by
  have each : ∀ k t, (db.merge n).tables.get k = some t →
      t.table.Sound ∧ t.deltas.length = (db.merge n).depth := by
    intro k t held
    rw [get_merge, Option.map_eq_some_iff] at held
    obtain ⟨u, before, rfl⟩ := held
    have aligned := sound.aligned k u before
    rw [← aligned] at inside
    refine ⟨sound.table k u before, ?_⟩
    change (Delta.mergeAt n u.deltas).length = db.depth - 1
    rw [Delta.length_mergeAt inside, aligned]
  exact ⟨fun k t held => (each k t held).1, fun k t held => (each k t held).2⟩

theorem commit_eq_merge (sound : db.Sound) (inside : 1 < db.depth) : commit db = (.ok (), db.merge 0) := by
  unfold commit
  rw [if_neg (by omega)]
  refine congrArg (Prod.mk _) (ext_tables rfl fun k => ?_)
  rw [get_merge]
  simp only [PerKind.get_ofFn]
  cases held : db.tables.get k with
  | none => rfl
  | some t => exact congrArg some (t.commit_eq_merge (by rw [sound.aligned k t held]; exact inside))

theorem Recalls.layered (recalls : db.Recalls saved) {t : Tracked k.Row} (held : db.tables.get k = some t) :
    t.Layered := by
  induction recalls generalizing t with
  | outside sound depth =>
    have aligned := sound.aligned k t held
    obtain ⟨table, deltas⟩ := t
    rw [depth] at aligned
    cases List.eq_nil_of_length_eq_zero aligned
    exact .outside
  | @session base db saved earlier continues ih =>
    have related := continues.opened k
    rw [held] at related
    cases before : base.tables.get k with
    | none => rw [before] at related; cases related
    | some u =>
      rw [before] at related
      cases related with
      | some one =>
        cases one with
        | session _ spans =>
          have sound := earlier.sound.table k u before
          exact .session (ih before) sound (spans u.table sound (Delta.spans_empty u.table))

theorem commit_merge (recalls : db.Recalls saved) (inside : n + 2 < db.depth) {after : Database}
    (run : commit db = (.ok (), after)) : commit (db.merge (n + 1)) = (.ok (), after.merge n) := by
  unfold commit at run ⊢
  have opened : db.depth ≠ 0 := by omega
  have opened' : (db.merge (n + 1)).depth ≠ 0 := by change db.depth - 1 ≠ 0; omega
  rw [if_neg opened] at run
  cases run
  rw [if_neg opened']
  refine congrArg (Prod.mk _) (ext_tables rfl fun k => ?_)
  rw [get_merge]
  simp only [PerKind.get_ofFn, get_merge]
  cases held : db.tables.get k with
  | none => rfl
  | some t => exact congrArg some (recalls.layered held).commit_merge

-- A change in a session of its own, over two sessions or over the two merged.
theorem nested_merge {α : Type} {change : Change ChainError α} (uniform : change.Uniform)
    (recalls : db.Recalls saved) (inside : n + 1 < db.depth) :
    nested change (db.merge n) = ((nested change db).1, (nested change db).2.merge n) := by
  have continuing := uniform.continuing
  have sound := recalls.sound
  -- Inside the new session the merged pair lies one place further out.
  obtain ⟨answers, merged⟩ := uniform _ (merge_simulation n) db.push _ rfl
  rw [← push_merge (by omega)] at answers merged
  rcases nested_cases continuing sound with ⟨a, mid, after, made, continues, run, whole, -⟩ | ⟨e, mid, made, whole⟩
  · have recalls' : mid.Recalls (db :: saved) := .session recalls continues
    have deep : n + 2 < mid.depth := by rw [continues.depth]; exact Nat.succ_lt_succ inside
    have made' : change (db.merge n).push = (.ok a, mid.merge (n + 1)) := by
      rw [made] at answers merged
      exact Prod.ext answers merged
    rw [whole]
    unfold nested
    rw [made']
    dsimp only
    rw [commit_merge recalls' deep run]
  · rw [whole]
    rcases nested_cases continuing (merge_sound sound inside) with ⟨a, _, _, made', _⟩ | ⟨e', _, made', whole'⟩
    · rw [made, made'] at answers
      cases answers
    · rw [made, made'] at answers
      cases answers
      exact whole'

end Database

end RoomLedger
