import RoomLedger.Proofs.NestedSessions
import RoomLedger.Proofs.TrackedRuns

namespace RoomLedger

namespace Delta

variable {α : Type} {change : Delta α → Delta α}

theorem absorb_noteCreated (d : Delta α) (number next : Nat) :
    d.absorb (empty.noteCreated number next) = d.noteCreated number next := by
  refine ext_trace ?_ fun n => ?_
  · rw [next?_absorb]
    cases known : d.next? <;> simp [noteCreated, noteNext, empty, known]
  · rw [trace_absorb, trace_noteCreated, trace_noteCreated]
    split <;> rfl

theorem absorb_noteModified (d : Delta α) (number : Nat) (before : α) :
    d.absorb (empty.noteModified number before) = d.noteModified number before := by
  refine ext_trace ?_ fun n => ?_
  · rw [next?_absorb, next?_noteModified, next?_noteModified]
    exact Option.or_none
  · rw [trace_absorb, trace_noteModified, trace_noteModified]
    split <;> rfl

theorem absorb_noteRemoved (d : Delta α) (number : Nat) (before : α) :
    d.absorb (empty.noteRemoved number before) = d.noteRemoved number before := by
  refine ext_trace ?_ fun n => ?_
  · rw [next?_absorb, next?_noteRemoved, next?_noteRemoved]
    exact Option.or_none
  · rw [trace_absorb, trace_noteRemoved, trace_noteRemoved]
    split <;> rfl

variable [Stored α] {d₀ d₁ : Delta α} {r s t u : Table α}

-- An edit is taken for a session of its own, in which it notes `change`: then absorbing a delta and
-- noting an edit are the same operation, and it is associative.
structure Notes (change : Delta α → Delta α) (t u : Table α) : Prop where
  absorbed : ∀ d, d.absorb (change .empty) = change d
  spans : (change .empty).Spans t u

theorem notes_create (sound : t.Sound) {fill : α → α} {row : α} (made : t.create fill = .ok (row, u)) :
    Notes (·.noteCreated (Stored.number row) t.next) t u := by
  obtain ⟨number, -, sets, counted⟩ := Table.create_sets sound made
  refine ⟨fun d => absorb_noteCreated d _ _, ?_⟩
  rw [number]
  exact (spans_empty t).noteCreated sound sound sets counted

theorem notes_modify (sound : t.Sound) {n : Nat} {edit : α → α} {before : α}
    (made : t.modify n edit = .ok (before, u)) : Notes (·.noteModified n before) t u := by
  obtain ⟨found, sets, counted⟩ := Table.modify_sets sound made
  exact ⟨fun d => absorb_noteModified d n before, (spans_empty t).noteModified found sets counted⟩

theorem notes_remove (sound : t.Sound) {n : Nat} {row : α} (made : t.remove n = .ok (row, u)) :
    Notes (·.noteRemoved n row) t u := by
  obtain ⟨found, sets, counted⟩ := Table.remove_sets sound made
  exact ⟨fun d => absorb_noteRemoved d n row, (spans_empty t).noteRemoved found sets counted⟩

theorem Notes.change_absorb (notes : Notes change t u) (outer : d₁.Spans r s) (inner : d₀.Spans s t)
    (sound : r.Sound) (sound' : s.Sound) : change (d₁.absorb d₀) = d₁.absorb (change d₀) := by
  rw [← notes.absorbed (d₁.absorb d₀), ← notes.absorbed d₀]
  exact outer.absorb_assoc inner notes.spans sound sound'

end Delta

inductive Role where
  | edit
  | opening
  | closing
  deriving DecidableEq, Repr

namespace Role

-- How many sessions of their own are open after the calls; none if they close one that is not theirs.
def level : List Role → Nat → Option Nat
  | [], n => some n
  | edit :: rest, n => level rest n
  | opening :: rest, n => level rest (n + 1)
  | closing :: _, 0 => none
  | closing :: rest, n + 1 => level rest n

-- Each session that is opened is closed again, and no other one.
def Balanced (roles : List Role) : Prop := level roles 0 = some 0

instance (roles : List Role) : Decidable (Balanced roles) := inferInstanceAs (Decidable (_ = _))

theorem level_cons {role : Role} {rest : List Role} {n last : Nat} (within : level (role :: rest) n = some last) :
    ∃ m, level [role] n = some m ∧ level rest m = some last := by
  cases role with
  | edit => exact ⟨n, rfl, within⟩
  | opening => exact ⟨n + 1, rfl, within⟩
  | closing =>
    cases n with
    | zero => cases within
    | succ n => exact ⟨n, rfl, within⟩

end Role

namespace Tracked

variable {α : Type} [Stored α] {t : Tracked α} {saved : List (Tracked α)} {n m : Nat}

theorem Layered.merges {t u : Table α} {deltas : List (Delta α)} {change : Delta α → Delta α}
    (layered : Layered ⟨t, deltas⟩) (notes : Delta.Notes change t u) (n : Nat) : Merges n deltas change := by
  cases n with
  | succ n => exact merges_succ deltas change
  | zero =>
    unfold Merges
    cases layered with
    | outside => rfl
    | session earlier sound' inner =>
      cases earlier with
      | outside => rfl
      | session _ sound outer =>
        simp only [Delta.mergeAt, note, notes.change_absorb outer inner sound sound']

theorem undo_merge (t : Tracked α) : (t.merge (n + 1)).undo = merge n <$> t.undo := by
  obtain ⟨table, _ | ⟨inner, outer⟩⟩ := t
  · cases n <;> rfl
  · simp only [merge, Delta.mergeAt, undo]
    cases inner.revert table <;> rfl

theorem Recalls.layered (recalls : t.Recalls saved) : t.Layered := by
  induction recalls with
  | @outside t _ closed =>
    obtain ⟨table, deltas⟩ := t
    cases closed
    exact .outside
  | @session base _ _ earlier continues ih =>
    have sound := earlier.sound
    cases continues with
    | session _ spans => exact .session ih sound (spans base.table sound (Delta.spans_empty base.table))

def Call.role : Call α → Role
  | create .. | modify .. | remove .. => .edit
  | push => .opening
  | commit | undo => .closing

theorem edit_continues (sound : t.table.Sound) {call : Call α} (edits : call.role = .edit) :
    t.Continues (call.run t) := by
  unfold Call.run
  split
  · rename_i made
    cases call with
    | create fill => exact create_attempt sound made
    | modify number change => exact modify_attempt sound made
    | remove number => exact remove_attempt sound made
    | push | commit | undo => cases edits
  · exact .refl sound

theorem edit_merge (recalls : t.Recalls saved) {call : Call α} (edits : call.role = .edit) (n : Nat) :
    call.run (t.merge n) = (call.run t).merge n := by
  have sound := recalls.sound
  have layered := recalls.layered
  cases call with
  | create fill =>
    simp only [Call.run, Call.attempt, create, table_merge]
    cases made : t.table.create fill with
    | error fault => rfl
    | ok made' => exact congrArg (Tracked.mk _) (layered.merges (Delta.notes_create sound made) n)
  | modify number change =>
    simp only [Call.run, Call.attempt, modify, table_merge]
    cases made : t.table.modify number change with
    | error fault => rfl
    | ok made' => exact congrArg (Tracked.mk _) (layered.merges (Delta.notes_modify sound made) n)
  | remove number =>
    simp only [Call.run, Call.attempt, remove, table_merge]
    cases made : t.table.remove number with
    | error fault => rfl
    | ok made' => exact congrArg (Tracked.mk _) (layered.merges (Delta.notes_remove sound made) n)
  | push | commit | undo => cases edits

-- One call on the sessions merged; the place of the merged pair moves with the sessions inside it.
theorem run_merge (recalls : t.Recalls saved) (call : Call α) (within : Role.level [call.role] n = some m) :
    call.run (t.merge n) = (call.run t).merge m := by
  cases call with
  | create | modify | remove =>
    cases within
    exact edit_merge recalls rfl n
  | push =>
    cases within
    rfl
  | commit =>
    cases n with
    | zero => cases within
    | succ n =>
      cases within
      exact recalls.layered.commit_merge
  | undo =>
    cases n with
    | zero => cases within
    | succ n =>
      cases within
      simp only [Call.run, Call.attempt, undo_merge, (undo_recalls recalls).1]
      rfl

theorem runAll_merge (calls : List (Call α)) (recalls : t.Recalls saved)
    (within : Role.level (calls.map Call.role) n = some m) :
    runAll calls (t.merge n) = (runAll calls t).merge m := by
  induction calls generalizing t saved n with
  | nil =>
    cases within
    rfl
  | cons call calls ih =>
    obtain ⟨mid, first, rest⟩ := Role.level_cons within
    change runAll calls (call.run (t.merge n)) = _
    rw [run_merge recalls call first]
    exact ih (run_recalls recalls call) rest

theorem length_run (recalls : t.Recalls saved) (call : Call α) (inside : n < t.deltas.length)
    (within : Role.level [call.role] n = some m) :
    (call.run t).deltas.length + n = t.deltas.length + m := by
  cases call with
  | create | modify | remove =>
    cases within
    rw [(edit_continues recalls.sound rfl).length]
  | push =>
    cases within
    simp only [Call.run, Call.attempt, push, List.length_cons]
    omega
  | commit =>
    cases n with
    | zero => cases within
    | succ n =>
      cases within
      obtain ⟨table, _ | ⟨inner, _ | ⟨outer, rest⟩⟩⟩ := t
      · cases inside
      · simp at inside
      · simp only [Call.run, Call.attempt, commit, List.length_cons]
        omega
  | undo =>
    cases n with
    | zero => cases within
    | succ n =>
      cases within
      cases recalls with
      | outside _ closed => simp [closed] at inside
      | session earlier continues =>
        simp only [Call.run, Call.attempt, undo_continues earlier.sound continues, continues.length, push,
          List.length_cons]
        omega

theorem length_runAll (calls : List (Call α)) (recalls : t.Recalls saved) (inside : n < t.deltas.length)
    (within : Role.level (calls.map Call.role) n = some m) :
    (runAll calls t).deltas.length + n = t.deltas.length + m := by
  induction calls generalizing t saved n with
  | nil =>
    cases within
    rfl
  | cons call calls ih =>
    obtain ⟨mid, first, rest⟩ := Role.level_cons within
    have one := length_run recalls call inside first
    have all := ih (run_recalls recalls call) (by omega : mid < (call.run t).deltas.length) rest
    change (runAll calls (call.run t)).deltas.length + n = _
    omega

theorem runAll_session (calls : List (Call α)) (recalls : t.Recalls saved) (opened : t.deltas ≠ [])
    (balanced : Role.Balanced (calls.map Call.role)) :
    runAll (.push :: calls ++ [.commit]) t = runAll calls t := by
  have sound := recalls.sound
  have begun : t.push.Recalls (t :: saved) := .session recalls (.refl sound)
  have same := runAll_merge calls begun balanced
  have length := length_runAll calls begun (Nat.succ_pos _) balanced
  have inside : 1 < (runAll calls t.push).deltas.length := by
    rw [← Nat.add_zero (List.length _), length, push, List.length_cons]
    exact Nat.succ_lt_succ (List.length_pos_iff.mpr opened)
  rw [merge_push t opened, ← commit_eq_merge _ inside] at same
  rw [same]
  exact List.foldl_append ..

end Tracked

namespace Database

variable {db base : Database} {saved : List Database} {k : Kind} {n m : Nat}

def Call.role : Call → Role
  | create .. | modify .. | remove .. => .edit
  | push => .opening
  | commit | undo => .closing

theorem undo_merge (sound : base.Sound) (continues : base.push.Continues db) (opened : 0 < base.depth) :
    undo (db.merge (n + 1)) = (.ok (), base.merge n) := by
  refine undo_of_undone ?_ fun k => ?_
  · have depth : db.depth = base.depth + 1 := continues.depth
    change db.depth - 1 = base.depth - 1 + 1
    omega
  · have undone := continues.undone sound k
    rw [get_merge, get_merge]
    generalize base.tables.get k = a at undone
    generalize db.tables.get k = b at undone
    cases undone with
    | none => exact .none
    | some one =>
      refine .some ?_
      rw [Tracked.undo_merge, one]
      rfl

theorem run_merge (recalls : db.Recalls saved) (call : Call) (inside : n + 1 < db.depth)
    (within : Role.level [call.role] n = some m) :
    call.run (db.merge n) = ((call.run db).1, (call.run db).2.merge m) := by
  -- An edit leaves the merged pair where it is, an opening moves it one place out, and a closing
  -- moves it back.
  have sound := recalls.sound
  cases call with
  | create k fill =>
    cases within
    simp only [Call.run]
    rw [create_merge fill fun t _ _ held made =>
      (recalls.layered held).merges (Delta.notes_create (sound.table k t held) made) n]
    rfl
  | modify k id change =>
    cases within
    simp only [Call.run]
    rw [modify_merge id change fun _ t _ _ held made =>
      (recalls.layered held).merges (Delta.notes_modify (sound.table k t held) made) n]
    rfl
  | remove k id =>
    cases within
    simp only [Call.run]
    rw [remove_merge id fun _ t _ _ held made =>
      (recalls.layered held).merges (Delta.notes_remove (sound.table k t held) made) n]
    rfl
  | push =>
    cases within
    exact congrArg (Prod.mk _) (push_merge (by omega))
  | commit =>
    cases n with
    | zero => cases within
    | succ n =>
      cases within
      have run : commit db = (.ok (), (commit db).2) := by
        unfold commit
        rw [if_neg (by omega)]
      simp only [Call.run, commit_merge recalls inside run]
      rw [run]
  | undo =>
    cases n with
    | zero => cases within
    | succ n =>
      cases within
      cases recalls with
      | outside _ depth => omega
      | session earlier continues =>
        have depth : db.depth = _ + 1 := continues.depth
        simp only [Call.run, undo_merge earlier.sound continues (by omega),
          undo_of_continues earlier.sound continues]

theorem depth_run (recalls : db.Recalls saved) (call : Call) (inside : n < db.depth)
    (within : Role.level [call.role] n = some m) : (call.run db).2.depth + n = db.depth + m := by
  rw [recalls.depth] at inside
  rw [(run_recalls recalls call).depth, recalls.depth]
  cases call with
  | create | modify | remove =>
    cases within
    rfl
  | push =>
    cases within
    exact Nat.add_right_comm ..
  | commit | undo =>
    cases n with
    | zero => cases within
    | succ n =>
      cases within
      simp only [Call.openings, List.length_tail]
      omega

theorem answers_merge (calls : List Call) (recalls : db.Recalls saved) (inside : n + 1 < db.depth)
    (within : Role.level (calls.map Call.role) n = some m) :
    answers Call.run calls (db.merge n) =
      ((answers Call.run calls db).1, (answers Call.run calls db).2.merge m) ∧
    (answers Call.run calls db).2.depth + n = db.depth + m := by
  induction calls generalizing db saved n with
  | nil =>
    cases within
    exact ⟨rfl, rfl⟩
  | cons call calls ih =>
    obtain ⟨mid, first, rest⟩ := Role.level_cons within
    have one := depth_run recalls call (Nat.lt_of_succ_lt inside) first
    obtain ⟨same, depth⟩ := ih (run_recalls recalls call) (by omega) rest
    refine ⟨?_, by change (answers Call.run calls (call.run db).2).2.depth + n = _; omega⟩
    simp only [answers, run_merge recalls call inside first, same]

theorem answers_append {σ : Type} (step : Call → σ → Answer × σ) (first last : List Call) (s : σ) :
    answers step (first ++ last) s =
      ((answers step first s).1 ++ (answers step last (answers step first s).2).1,
        (answers step last (answers step first s).2).2) := by
  induction first generalizing s with
  | nil => rfl
  | cons call first ih => simp only [List.cons_append, answers, ih]

theorem answers_session (calls : List Call) (recalls : db.Recalls saved) (opened : 0 < db.depth)
    (balanced : Role.Balanced (calls.map Call.role)) :
    answers Call.run (.push :: calls ++ [.commit]) db =
      (.ok none :: (answers Call.run calls db).1 ++ [.ok none], (answers Call.run calls db).2) := by
  have sound := recalls.sound
  have begun : db.push.Recalls (db :: saved) := .session recalls (.refl (push_sound sound))
  obtain ⟨same, depth⟩ := answers_merge calls begun (Nat.succ_lt_succ opened) balanced
  rw [merge_push sound opened] at same
  obtain ⟨rest, recalls', -⟩ := answers_copying calls begun
  have deep : 1 < (answers Call.run calls db.push).2.depth := by
    have : db.push.depth = db.depth + 1 := rfl
    omega
  have closed := commit_eq_merge recalls'.sound deep
  rw [List.cons_append, answers]
  simp only [answers_append, Call.run, answers, closed, same]
  rfl

-- What a database can become: tables join at any time, also while sessions are open.
inductive Reached : Database → Prop where
  | empty : Reached .empty
  | register {db : Database} (earlier : Reached db) (k : Kind) : Reached (db.register k)
  | call {db : Database} (earlier : Reached db) (call : Call) : Reached (call.run db).2

theorem Continues.register (continues : base.push.Continues db) (k : Kind) :
    (base.register k).push.Continues (db.register k) := by
  have depth : db.depth = base.depth + 1 := continues.depth
  have joined : Tracked.push (.empty base.depth : Tracked k.Row) = .empty db.depth := by
    simp only [Tracked.push, Tracked.empty, depth, List.replicate_succ]
  refine ⟨by rw [depth_register, depth]; exact congrArg (· + 1) (depth_register base k).symm, fun j => ?_⟩
  have related := continues.opened k
  unfold Database.register
  generalize held : base.tables.get k = a at related
  generalize held' : db.tables.get k = b at related
  cases related with
  | some _ => exact continues.tables j
  | none =>
    simp only [push, PerKind.get_ofFn]
    by_cases same : j = k
    · subst same
      rw [PerKind.get_set_self, PerKind.get_set_self, Option.map_some, joined]
      exact .some (.refl Table.empty_sound)
    · rw [PerKind.get_set_of_ne _ same, PerKind.get_set_of_ne _ same]
      have others := continues.tables j
      simpa only [push, PerKind.get_ofFn] using others

-- A table that joins late is as if it had been there, empty, when the sessions began.
theorem Recalls.register (recalls : db.Recalls saved) (k : Kind) :
    (db.register k).Recalls (saved.map (·.register k)) := by
  induction recalls with
  | outside sound depth => exact .outside (register_sound sound k) ((depth_register ..).trans depth)
  | session earlier continues ih => exact .session ih (continues.register k)

theorem Reached.answers (reached : db.Reached) (calls : List Call) :
    (Database.answers Call.run calls db).2.Reached := by
  induction calls generalizing db with
  | nil => exact reached
  | cons call calls ih => exact ih (reached.call call)

theorem Reached.recalls (reached : db.Reached) : ∃ saved, db.Recalls saved := by
  induction reached with
  | empty => exact ⟨[], .outside empty_sound rfl⟩
  | register _ k ih =>
    obtain ⟨saved, recalls⟩ := ih
    exact ⟨_, recalls.register k⟩
  | call _ call ih =>
    obtain ⟨saved, recalls⟩ := ih
    exact ⟨_, run_recalls recalls call⟩

-- For records of any type, and for the database of a ledger: in an open session, calls that are given a
-- session of their own leave everything as if they had been made directly.
theorem commits_are_transparent :
    (∀ (α : Type) [Stored α] (depth : Nat) (earlier calls : List (Tracked.Call α)),
      (Tracked.runAll earlier (.empty depth)).deltas ≠ [] → Role.Balanced (calls.map Tracked.Call.role) →
      Tracked.runAll (.push :: calls ++ [.commit]) (Tracked.runAll earlier (.empty depth)) =
        Tracked.runAll calls (Tracked.runAll earlier (.empty depth))) ∧
    (∀ db : Database, db.Reached → 0 < db.depth → ∀ calls, Role.Balanced (calls.map Call.role) →
      answers Call.run (.push :: calls ++ [.commit]) db =
        (.ok none :: (answers Call.run calls db).1 ++ [.ok none], (answers Call.run calls db).2)) := by
  constructor
  · intro α _ depth earlier calls opened balanced
    exact Tracked.runAll_session calls (Tracked.runAll_recalls earlier (Tracked.empty_recalls depth)) opened balanced
  · intro db reached opened calls balanced
    obtain ⟨_, recalls⟩ := reached.recalls
    exact answers_session calls recalls opened balanced

def renamingSession : Database :=
  (answers Call.run [.create .sport id, .create .sport id, .push,
    .modify .sport (Kind.sport.id 0) fun s => { s with name := ⟨.ofList [("en", "chess")]⟩ }]
    (opened [.sport])).2

def removingCalls : List Call :=
  [.remove .sport (Kind.sport.id 0), .create .sport id, .push, .remove .sport (Kind.sport.id 1), .undo,
    .push, .remove .sport (Kind.sport.id 2), .create .sport id, .commit, .remove .sport (Kind.sport.id 2)]

theorem commits_are_transparent_sports :
    renamingSession.Reached ∧ 0 < renamingSession.depth ∧ Role.Balanced (removingCalls.map Call.role) ∧
    Tracked.runAll [.push, .create id, .commit] (Tracked.runAll [.push] (.empty 0) : Tracked Kind.sport.Row) =
      Tracked.runAll [.create id] (Tracked.runAll [.push] (.empty 0)) ∧
    answers Call.run (.push :: removingCalls ++ [.commit]) renamingSession =
      (.ok none :: (answers Call.run removingCalls renamingSession).1 ++ [.ok none],
        (answers Call.run removingCalls renamingSession).2) ∧
    ((answers Call.run removingCalls renamingSession).2.pending .sport).created.toList = [3] ∧
    ((answers Call.run removingCalls renamingSession).2.pending .sport).removed.keys = [0] := by
  have reached : renamingSession.Reached := (Reached.empty.register .sport).answers _
  have opened : 0 < renamingSession.depth := by decide
  have balanced : Role.Balanced (removingCalls.map Call.role) := by decide
  refine ⟨reached, opened, balanced, ?_, ?_, by decide, by decide⟩
  · exact commits_are_transparent.1 Kind.sport.Row 0 [.push] [.create id] (by decide) (by decide)
  · exact commits_are_transparent.2 renamingSession reached opened removingCalls balanced

end Database

end RoomLedger
