import RoomLedger.Proofs.TrackedRuns

namespace RoomLedger

namespace Tracked

variable {α : Type} [Stored α] {t : Tracked α} {saved : List (Tracked α)}

abbrev Answer (α : Type) := Except TableFault (Option α)

-- The record that a call is answered with, if any. Without an open session there is nothing to close.
def Call.answer : Call α → Tracked α → Answer α
  | create fill, t => (t.create fill).map fun made => some made.1
  | modify number change, t => (t.modify number change).map fun _ => none
  | remove number, t => (t.remove number).map fun made => some made.1
  | push, _ | commit, _ => .ok none
  | undo, t => t.undo.map fun _ => none

def Call.step (call : Call α) (t : Tracked α) : Answer α × Tracked α := (call.answer t, call.run t)

-- The reference saves a full copy of its table when a session is opened, drops the copy when the
-- session is committed, and goes back to it when the session is undone.
structure Copying (α : Type) where
  current : Table α
  saved : List (Table α)

namespace Copying

def edit {β : Type} (copy : Copying α) (answer : β → Option α) :
    Except TableFault (β × Table α) → Answer α × Copying α
  | .error fault => (.error fault, copy)
  | .ok (b, table) => (.ok (answer b), { copy with current := table })

def step : Call α → Copying α → Answer α × Copying α
  | .create fill, copy => copy.edit some (copy.current.create fill)
  | .modify number change, copy => copy.edit (fun _ => none) (copy.current.modify number change)
  | .remove number, copy => copy.edit some (copy.current.remove number)
  | .push, copy => (.ok none, { copy with saved := copy.current :: copy.saved })
  | .commit, copy => (.ok none, { copy with saved := copy.saved.tail })
  | .undo, copy => (.ok none, ⟨copy.saved.headD copy.current, copy.saved.tail⟩)

end Copying

def answers {σ : Type} (step : Call α → σ → Answer α × σ) : List (Call α) → σ → List (Answer α) × σ
  | [], s => ([], s)
  | call :: calls, s =>
    let (answer, s) := step call s
    let (rest, s) := answers step calls s
    (answer :: rest, s)

def copying (t : Tracked α) (saved : List (Tracked α)) : Copying α := ⟨t.table, saved.map table⟩

theorem step_copying (recalls : t.Recalls saved) (call : Call α) :
    Copying.step call (t.copying saved) = (call.answer t, (call.run t).copying (call.openings t saved)) := by
  cases call with
  | create fill =>
    simp only [Copying.step, Call.answer, Call.run, Call.attempt, Tracked.create, copying]
    cases t.table.create fill <;> rfl
  | modify number change =>
    simp only [Copying.step, Call.answer, Call.run, Call.attempt, Tracked.modify, copying]
    cases t.table.modify number change <;> rfl
  | remove number =>
    simp only [Copying.step, Call.answer, Call.run, Call.attempt, Tracked.remove, copying]
    cases t.table.remove number <;> rfl
  | push => rfl
  | commit =>
    simp only [Copying.step, Call.answer, Call.run, Call.attempt, Call.openings, copying, Database.table_commit,
      List.map_tail]
  | undo =>
    -- Undoing gives back the table in which the session began, which is the copy.
    obtain ⟨undone, -⟩ := undo_recalls recalls
    simp only [Copying.step, Call.answer, Call.run, Call.attempt, Call.openings, undone, copying, List.map_tail]
    cases saved <;> rfl

theorem answers_copying (calls : List (Call α)) (recalls : t.Recalls saved) :
    answers Copying.step calls (t.copying saved) = ((answers Call.step calls t).1,
      (runAll calls t).copying (openingsAfter calls t saved)) ∧ (answers Call.step calls t).2 = runAll calls t := by
  induction calls generalizing t saved with
  | nil => exact ⟨rfl, rfl⟩
  | cons call calls ih =>
    obtain ⟨given, last⟩ := ih (run_recalls recalls call)
    refine ⟨?_, last⟩
    simp only [answers, step_copying recalls call, given]
    rfl

theorem Recalls.length (recalls : t.Recalls saved) : t.deltas.length = saved.length := by
  induction recalls with
  | outside _ closed => rw [closed]; rfl
  | session _ continues ih =>
    rw [continues.length, List.length_cons, ← ih]
    rfl

-- The reference has nothing to take back that could fail.
theorem answer_undo (calls : List (Call α)) (copy : Copying α) {n : Nat} (called : calls[n]? = some .undo) :
    (answers Copying.step calls copy).1[n]? = some (.ok none) := by
  induction calls generalizing copy n with
  | nil => cases called
  | cons call calls ih =>
    cases n with
    | zero =>
      cases called
      rfl
    | succ n => exact ih _ called

theorem joined_copying (depth : Nat) :
    (empty depth : Tracked α).copying (joined depth) = ⟨.empty, List.replicate depth .empty⟩ := by
  unfold copying
  refine congrArg (Copying.mk _) ?_
  induction depth with
  | zero => rfl
  | succ depth ih => exact congrArg (Table.empty :: ·) ih

end Tracked

namespace Database

-- A call of the database from outside; ids need not exist, nor be of the kind that is asked for.
inductive Call where
  | create (k : Kind) (fill : k.Row → k.Row)
  | modify (k : Kind) (id : ObjectId) (change : k.Row → k.Row)
  | remove (k : Kind) (id : ObjectId)
  | push
  | commit
  | undo

abbrev Answer := Except DbError (Option AnyRow)

def Call.run : Call → Database → Answer × Database
  | create k fill, db => let (result, db) := Database.create k fill db; (result.map fun row => some ⟨k, row⟩, db)
  | modify k id change, db => let (result, db) := Database.modify k id change db; (result.map fun _ => none, db)
  | remove k id, db => let (result, db) := Database.remove k id db; (result.map fun row => some ⟨k, row⟩, db)
  | push, db => (.ok none, db.push)
  | commit, db => let (result, db) := Database.commit db; (result.map fun _ => none, db)
  | undo, db => let (result, db) := Database.undo db; (result.map fun _ => none, db)

structure Copying where
  current : Contents
  saved : List Contents

namespace Copying

def edit {α : Type} (copy : Copying) (k : Kind) (change : Table k.Row → Except TableFault (α × Table k.Row))
    (answer : α → Option AnyRow) : Answer × Copying :=
  match copy.current.get k with
  | none => (.error (.unknownType k), copy)
  | some t =>
    match change t with
    | .error fault => (.error (.ofTable k fault), copy)
    | .ok (a, t) => (.ok (answer a), { copy with current := copy.current.set k (some t) })

def editAt {α : Type} (copy : Copying) (k : Kind) (id : ObjectId)
    (change : Nat → Table k.Row → Except TableFault (α × Table k.Row)) (answer : α → Option AnyRow) :
    Answer × Copying :=
  match numberOf k id with
  | .error e => (.error e, copy)
  | .ok n => copy.edit k (change n) answer

def step : Call → Copying → Answer × Copying
  | .create k fill, copy => copy.edit k (·.create fill) fun row => some ⟨k, row⟩
  | .modify k id change, copy => copy.editAt k id (fun n t => t.modify n change) fun _ => none
  | .remove k id, copy => copy.editAt k id (fun n t => t.remove n) fun row => some ⟨k, row⟩
  | .push, copy => (.ok none, { copy with saved := copy.current :: copy.saved })
  | .commit, copy =>
    match copy.saved with
    | [] => (.error .noActiveSession, copy)
    | _ :: saved => (.ok none, { copy with saved })
  | .undo, copy =>
    match copy.saved with
    | [] => (.error .noActiveSession, copy)
    | current :: saved => (.ok none, ⟨current, saved⟩)

end Copying

def answers {σ : Type} (step : Call → σ → Answer × σ) : List Call → σ → List Answer × σ
  | [], s => ([], s)
  | call :: calls, s =>
    let (answer, s) := step call s
    let (rest, s) := answers step calls s
    (answer :: rest, s)

variable {db after : Database} {saved : List Database} {k : Kind}

-- The databases in which the open sessions began, innermost first.
inductive Recalls : Database → List Database → Prop where
  | outside {db : Database} (sound : db.Sound) (depth : db.depth = 0) : Recalls db []
  | session {base db : Database} {saved : List Database} (earlier : Recalls base saved)
      (continues : base.push.Continues db) : Recalls db (base :: saved)

theorem Recalls.sound (recalls : db.Recalls saved) : db.Sound := by
  induction recalls with
  | outside sound _ => exact sound
  | session _ continues ih => exact continues.sound (push_sound ih)

theorem Recalls.depth (recalls : db.Recalls saved) : db.depth = saved.length := by
  induction recalls with
  | outside _ depth => exact depth
  | session _ continues ih => rw [continues.depth, List.length_cons, ← ih]; rfl

theorem Recalls.continues (recalls : db.Recalls saved) (continues : db.Continues after) :
    after.Recalls saved := by
  cases recalls with
  | outside sound depth => exact .outside (continues.sound sound) (continues.depth.trans depth)
  | session earlier begun => exact .session earlier (begun.trans continues)

-- The reference that goes with a database of which the open sessions began as `saved` says.
def copying (db : Database) (saved : List Database) : Copying := ⟨db.contents, saved.map contents⟩

theorem contents_set (db : Database) (k : Kind) (t : Tracked k.Row) :
    contents { db with tables := db.tables.set k (some t) } = db.contents.set k (some t.table) := by
  apply PerKind.ext_get
  intro j
  rw [get_contents]
  by_cases same : j = k
  · subst same
    simp only [PerKind.get_set_self, Option.map_some]
  · simp only [PerKind.get_set_of_ne _ same, get_contents]

theorem edit_copying {α : Type} (db : Database) (saved : List Database) (k : Kind)
    (change : Table k.Row → Except TableFault (α × Table k.Row)) (answer : α → Option AnyRow) :
    (db.copying saved).edit k change answer = match db.tables.get k with
      | none => (.error (.unknownType k), db.copying saved)
      | some t =>
        match change t.table with
        | .error fault => (.error (.ofTable k fault), db.copying saved)
        | .ok (a, u) => (.ok (answer a), ⟨db.contents.set k (some u), saved.map contents⟩) := by
  unfold Copying.edit
  simp only [copying, get_contents]
  cases db.tables.get k with
  | none => rfl
  | some t => rfl

theorem create_copying (db : Database) (saved : List Database) (fill : k.Row → k.Row) :
    Copying.step (.create k fill) (db.copying saved) =
      ((Call.run (.create k fill) db).1, (Call.run (.create k fill) db).2.copying saved) := by
  simp only [Copying.step, Call.run, create_apply, edit_copying]
  cases db.tables.get k with
  | none => rfl
  | some t =>
    dsimp only
    cases t.table.create fill with
    | error fault => rfl
    | ok made => simp only [copying, contents_set]; rfl

theorem modify_copying (db : Database) (saved : List Database) (id : ObjectId) (change : k.Row → k.Row) :
    Copying.step (.modify k id change) (db.copying saved) =
      ((Call.run (.modify k id change) db).1, (Call.run (.modify k id change) db).2.copying saved) := by
  simp only [Copying.step, Copying.editAt, Call.run, modify_apply, edit_copying]
  cases numberOf k id with
  | error e => rfl
  | ok n =>
    dsimp only
    cases db.tables.get k with
    | none => rfl
    | some t =>
      dsimp only
      cases t.table.modify n change with
      | error fault => rfl
      | ok made => simp only [copying, contents_set]; rfl

theorem remove_copying (db : Database) (saved : List Database) (id : ObjectId) :
    Copying.step (.remove k id) (db.copying saved) =
      ((Call.run (.remove k id) db).1, (Call.run (.remove k id) db).2.copying saved) := by
  simp only [Copying.step, Copying.editAt, Call.run, remove_apply, edit_copying]
  cases numberOf k id with
  | error e => rfl
  | ok n =>
    dsimp only
    cases db.tables.get k with
    | none => rfl
    | some t =>
      dsimp only
      cases t.table.remove n with
      | error fault => rfl
      | ok made => simp only [copying, contents_set]; rfl

def Call.openings : Call → Database → List Database → List Database
  | .push, db, saved => db :: saved
  | .commit, _, saved | .undo, _, saved => saved.tail
  | _, _, saved => saved

theorem run_recalls (recalls : db.Recalls saved) (call : Call) :
    (call.run db).2.Recalls (call.openings db saved) := by
  have sound := recalls.sound
  cases call with
  | create k fill => exact recalls.continues (create_continues sound fill)
  | modify k id change => exact recalls.continues (modify_continues sound id change)
  | remove k id => exact recalls.continues (remove_continues sound id)
  | push => exact .session recalls (.refl (push_sound sound))
  | commit =>
    cases recalls with
    | outside sound depth => simpa [Call.run, commit, depth, Call.openings] using Recalls.outside sound depth
    | session earlier continues =>
      obtain ⟨after, run, kept⟩ := commit_of_continues earlier.sound continues
      simp only [Call.run, run]
      exact earlier.continues kept
  | undo =>
    cases recalls with
    | outside sound depth => simpa [Call.run, undo, depth, Call.openings] using Recalls.outside sound depth
    | session earlier continues =>
      simp only [Call.run, undo_of_continues earlier.sound continues]
      exact earlier

theorem step_copying (recalls : db.Recalls saved) (call : Call) :
    Copying.step call (db.copying saved) =
      ((call.run db).1, (call.run db).2.copying (call.openings db saved)) := by
  cases call with
  | create k fill => exact create_copying db saved fill
  | modify k id change => exact modify_copying db saved id change
  | remove k id => exact remove_copying db saved id
  | push => simp only [Copying.step, Call.run, Call.openings, copying, contents_push, List.map_cons]
  | commit =>
    cases recalls with
    | outside _ depth => simp [Call.run, commit, depth, Copying.step, copying, Call.openings]; rfl
    | session earlier continues =>
      obtain ⟨after, run, -⟩ := commit_of_continues earlier.sound continues
      have same : after.contents = db.contents := by rw [← contents_commit db, run]
      simp only [Call.run, run, Copying.step, copying, List.map_cons, same]
      rfl
  | undo =>
    cases recalls with
    | outside _ depth => simp [Call.run, undo, depth, Copying.step, copying, Call.openings]; rfl
    | session earlier continues =>
      simp only [Call.run, undo_of_continues earlier.sound continues, Copying.step, copying, List.map_cons]
      rfl

theorem answers_copying (calls : List Call) (recalls : db.Recalls saved) :
    ∃ rest, (answers Call.run calls db).2.Recalls rest ∧
      answers Copying.step calls (db.copying saved) =
        ((answers Call.run calls db).1, (answers Call.run calls db).2.copying rest) := by
  induction calls generalizing db saved with
  | nil => exact ⟨saved, recalls, rfl⟩
  | cons call calls ih =>
    obtain ⟨last, recalled, run⟩ := ih (run_recalls recalls call)
    refine ⟨last, recalled, ?_⟩
    simp only [answers, step_copying recalls call, run]

theorem numberOf_ne_undoFailed (k : Kind) (id : ObjectId) (reason : String) :
    numberOf k id ≠ .error (.undoFailed reason) := by
  unfold numberOf
  split <;> simp

theorem ofTable_ne_undoFailed (k : Kind) (fault : TableFault) (reason : String) :
    DbError.ofTable k fault ≠ .undoFailed reason := by
  cases fault <;> simp [DbError.ofTable]

theorem edit_ne_undoFailed {α : Type} (copy : Copying) (k : Kind)
    (change : Table k.Row → Except TableFault (α × Table k.Row)) (answer : α → Option AnyRow)
    (reason : String) : (copy.edit k change answer).1 ≠ .error (.undoFailed reason) := by
  unfold Copying.edit
  split
  · simp
  · split
    · simp [ofTable_ne_undoFailed]
    · simp

theorem editAt_ne_undoFailed {α : Type} (copy : Copying) (k : Kind) (id : ObjectId)
    (change : Nat → Table k.Row → Except TableFault (α × Table k.Row)) (answer : α → Option AnyRow)
    (reason : String) : (copy.editAt k id change answer).1 ≠ .error (.undoFailed reason) := by
  unfold Copying.editAt
  split
  · rename_i refused
    intro failed
    cases failed
    exact numberOf_ne_undoFailed k id reason refused
  · exact edit_ne_undoFailed copy k _ answer reason

theorem step_ne_undoFailed (call : Call) (copy : Copying) (reason : String) :
    (copy.step call).1 ≠ .error (.undoFailed reason) := by
  cases call with
  | create k fill => exact edit_ne_undoFailed copy k _ _ reason
  | modify k id change => exact editAt_ne_undoFailed copy k id _ _ reason
  | remove k id => exact editAt_ne_undoFailed copy k id _ _ reason
  | push => simp [Copying.step]
  | commit => cases held : copy.saved <;> simp [Copying.step, held]
  | undo => cases held : copy.saved <;> simp [Copying.step, held]

theorem undoFailed_not_mem_answers (calls : List Call) (copy : Copying) (reason : String) :
    .error (.undoFailed reason) ∉ (answers Copying.step calls copy).1 := by
  induction calls generalizing copy with
  | nil => exact List.not_mem_nil
  | cons call calls ih =>
    intro member
    rcases List.mem_cons.mp member with failed | later
    · exact step_ne_undoFailed call copy reason failed.symm
    · exact ih _ later

def opened (kinds : List Kind) : Database := kinds.foldl register .empty

theorem opened_recalls (kinds : List Kind) : (opened kinds).Recalls [] := by
  have opened : (opened kinds).Sound ∧ (opened kinds).depth = 0 :=
    foldl_register_sound kinds empty_sound
  exact .outside opened.1 opened.2

-- Whatever is called in whatever order, for records of any type and for all kinds of a ledger: the deltas do what
-- full copies would do.
theorem answers_refine_copying :
    (∀ (α : Type) [Stored α] (depth : Nat) (calls : List (Tracked.Call α)),
      let (given, t) := Tracked.answers Tracked.Call.step calls (.empty depth)
      let (expected, copy) := Tracked.answers Tracked.Copying.step calls ⟨.empty, List.replicate depth .empty⟩
      given = expected ∧ t.table = copy.current ∧ t.deltas.length = copy.saved.length ∧
        ∀ n : Nat, calls[n]? = some .undo → given[n]? = some (.ok none)) ∧
    (∀ (kinds : List Kind) (calls : List Call),
      let (given, db) := answers Call.run calls (opened kinds)
      let (expected, copy) := answers Copying.step calls ⟨(opened kinds).contents, []⟩
      given = expected ∧ db.contents = copy.current ∧ db.depth = copy.saved.length ∧
        ∀ reason, .error (.undoFailed reason) ∉ given) := by
  constructor
  · intro α _ depth calls
    have recalls : (Tracked.empty depth : Tracked α).Recalls (Tracked.joined depth) := Tracked.empty_recalls depth
    obtain ⟨same, last⟩ := Tracked.answers_copying calls recalls
    rw [Tracked.joined_copying] at same
    have ended := (Tracked.runAll_recalls calls recalls).length
    have undone := fun n => @Tracked.answer_undo α _ calls ⟨.empty, List.replicate depth .empty⟩ n
    rw [same] at undone ⊢
    dsimp only
    rw [last]
    refine ⟨rfl, rfl, ?_, undone⟩
    rw [ended, Tracked.copying, List.length_map]
  · intro kinds calls
    obtain ⟨rest, recalls, same⟩ := answers_copying calls (opened_recalls kinds)
    change answers Copying.step calls ⟨(opened kinds).contents, []⟩ = _ at same
    rw [same]
    refine ⟨rfl, rfl, ?_, fun reason => ?_⟩
    · rw [recalls.depth, copying, List.length_map]
    · have none := undoFailed_not_mem_answers calls ⟨(opened kinds).contents, []⟩ reason
      rwa [same] at none

end Database

end RoomLedger
