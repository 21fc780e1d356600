import RoomLedger.Proofs.ProperChanges

namespace RoomLedger.Chain

open Database

variable {ω : Type} {total : Int} {c last : Chain ω}

inductive Call where
  | begin (number : UInt32) (time : Timestamp)
  | operation (op : Operation)
  | transaction (t : Transaction)
  | commit
  | abort
  -- The open block is let go of, and nobody is told what came of it.
  | drop
  | block (block : Block)

-- A block is begun or applied when none is open; all else is done to the one that is.
def Call.inTurn (c : Chain ω) : Call → Prop
  | .begin _ _ | .block _ => c.openBlock = none
  | _ => c.openBlock.isSome

def done {α : Type} (result : Except ChainError α × Chain ω) : Except ChainError Unit × Chain ω :=
  (result.1.map fun _ => (), result.2)

def Call.run [Observer ω] (c : Chain ω) : Call → Except ChainError Unit × Chain ω
  | .begin number time => beginBlock number time c
  | .operation op => done (pushOperation op c)
  | .transaction t => done (pushTransaction t c)
  | .commit => done (Chain.commit c)
  | .abort => Chain.abort c
  | .drop => (.ok (), (Chain.abort c).2)
  | .block b => done (applyBlock b c)

-- What has been answered since `c`, and what has become of it.
inductive Run [Observer ω] (c : Chain ω) : List (Except ChainError Unit) → Chain ω → Prop where
  | nil : Run c [] c
  | call {answers : List (Except ChainError Unit)} {last : Chain ω} (earlier : Run c answers last)
      (call : Call) (inTurn : call.inTurn last) : Run c (answers ++ [(call.run last).1]) (call.run last).2

-- Between any two calls the database stands; an open block stands on the database that it began
-- with.
structure Idle (total : Int) (c : Chain ω) : Prop where
  closed : c.openBlock = none
  level : c.db.depth = 0
  standing : c.db.Standing total

structure Busy (total : Int) (base : Database) (c : Chain ω) : Prop where
  inside : InBlock base c
  level : base.depth = 0
  before : base.Standing total
  standing : c.db.Standing total
  running : c.halted = none

variable {base : Database}

theorem halt_refused (cause : Refusal) (c : Chain ω) : c.halt (.refused cause) = c := rfl

theorem isSome_halted_halt {e : ChainError} (fatal : e.isFatal = true) (c : Chain ω) :
    (c.halt e).halted.isSome := by
  unfold halt
  cases stopped : c.halted with
  | none => simp [fatal]
  | some reason => simp [stopped]

theorem head_eq_ok {head : Head} (stored : c.db.row? .head headId.number = some head) : c.head = .ok head := by
  unfold Chain.head
  rw [RecordId.id, get_of_row? stored]
  rfl

theorem approveBlock_cases (closed : c.openBlock = none) {head : Head}
    (stored : c.db.row? .head headId.number = some head) (number : UInt32) (time : Timestamp) :
    c.approveBlock number time = .ok () ∧ c.halted = none ∨
      ∃ e, c.approveBlock number time = .error e ∧
        ((∃ cause, e = .refused cause) ∨ ∃ reason, e = .halted reason ∧ c.halted = some reason) := by
  unfold approveBlock ensureRunning
  cases stopped : c.halted with
  | some reason => exact .inr ⟨_, rfl, .inr ⟨reason, rfl, rfl⟩⟩
  | none =>
    rw [closed, head_eq_ok stored]
    by_cases gap : head.number.toNat + 1 ≠ number.toNat
    · exact .inr ⟨.refused (.blockOutOfOrder head.number number), if_pos gap, .inl ⟨_, rfl⟩⟩
    · by_cases early : time.seconds < head.time.seconds
      · exact .inr ⟨.refused (.timeRegressed head.time time), (if_neg gap).trans (if_pos early), .inl ⟨_, rfl⟩⟩
      · exact .inl ⟨(if_neg gap).trans (if_neg early), rfl⟩

theorem Idle.approve (idle : c.Idle total) (number : UInt32) (time : Timestamp) :
    c.approveBlock number time = .ok () ∧ c.halted = none ∨
      ∃ e, c.approveBlock number time = .error e ∧
        ((∃ cause, e = .refused cause) ∨ ∃ reason, e = .halted reason ∧ c.halted = some reason) := by
  obtain ⟨head, stored⟩ := idle.standing.head
  exact approveBlock_cases idle.closed stored number time

theorem advance_ends {db : Database} (standing : db.Standing total) (change : Head → Head) :
    ∃ after, modify .head headId.id change db = (.ok (), after) ∧ db.Continues after ∧
      after.Standing total := by
  obtain ⟨head, stored⟩ := standing.head
  obtain ⟨after, run⟩ := modify_succeeds standing.grounded.sound stored change
    fun m other beside collides => absurd collides (Table.not_collides_of_unlisted rfl)
  obtain ⟨row, -, puts, next⟩ := modify_eq_ok standing.grounded.sound run
  have grounded := standing.grounded.puts puts (Nat.le_of_eq next.symm) (by simp)
  refine ⟨after, run, puts.continues, grounded, ?_, ?_, ?_⟩
  · exact standing.backed.congr standing.grounded.complete grounded.complete
      (puts.row?_other (by simp)) (puts.row?_other (by simp))
      (puts.row?_other (by simp))
  · simp only [puts.row?_other (j := .globals) (by simp)]
    exact standing.globals
  · exact ⟨_, by rw [puts.rows, if_pos rfl]⟩

theorem Idle.begin (idle : c.Idle total) (number : UInt32) (time : Timestamp) :
    (∃ after, beginBlock number time c = (.ok (), after) ∧ after.Busy total c.db ∧ c.halted = none) ∨
      ∃ e, beginBlock number time c = (.error e, c) ∧
        ((∃ cause, e = .refused cause) ∨ ∃ reason, e = .halted reason ∧ c.halted = some reason) := by
  unfold beginBlock
  rcases idle.approve number time with ⟨approved, running⟩ | ⟨e, refused, cause⟩
  · obtain ⟨db, run, continues, standing⟩ := advance_ends idle.standing.push fun h =>
      { h with number := number, time := time }
    rw [approved]
    simp only [run]
    exact .inl ⟨_, rfl, ⟨⟨idle.standing.grounded.sound, continues, rfl⟩, idle.level, idle.standing, standing,
      running⟩, running⟩
  · rw [refused]
    exact .inr ⟨e, rfl, cause⟩

def Taken {α : Type} (result : Except ChainError α) : Prop :=
  (∃ a, result = .ok a) ∨ ∃ cause, result = .error (.refused cause)

theorem Busy.push {α : Type} {outcomes : α → List Outcome} {t : Transaction} {action : Action ω α}
    (busy : c.Busy total base) {result : Except ChainError α} {db : Database}
    (run : action c = (result, { c with db := db })) (continues : c.db.Continues db)
    (standing : db.Standing total) (taken : Taken result) :
    Taken (halting (recording t outcomes action) c).1 ∧
      (halting (recording t outcomes action) c).2.Busy total base := by
  have left : ∀ enter, (⟨db, c.config, c.observers, c.openBlock.map enter, c.halted⟩ : Chain ω).Busy total base := by
    intro enter
    refine ⟨⟨busy.inside.sound, busy.inside.continues.trans continues, ?_⟩, busy.level, busy.before, standing,
      busy.running⟩
    rw [Option.isSome_map]
    exact busy.inside.opened
  rcases taken with ⟨a, rfl⟩ | ⟨cause, rfl⟩
  · simp only [halting, recording, run]
    exact ⟨.inl ⟨a, rfl⟩, left _⟩
  · simp only [halting, recording, run, halt_refused]
    exact ⟨.inr ⟨cause, rfl⟩, left _⟩

theorem Busy.ready (busy : c.Busy total base) :
    c.ensureRunning = .ok () ∧ ∃ time, c.blockTime = .ok time := by
  obtain ⟨block, opened⟩ := Option.isSome_iff_exists.mp busy.inside.opened
  refine ⟨?_, block.receipt.time, ?_⟩
  · rw [ensureRunning, busy.running]
  · rw [blockTime, opened]

theorem onDatabase_eq {α : Type} {change : Change ChainError α} {result : Except ChainError α} {db : Database}
    (run : change c.db = (result, db)) : onDatabase change c = (result, { c with db := db }) := by
  unfold onDatabase
  rw [run]

theorem Busy.pushChange {α : Type} {outcomes : α → List Outcome} {t : Transaction} {action : Action ω α}
    {change : Change ChainError α} (busy : c.Busy total base) (proper : change.Proper total)
    (same : action c = onDatabase (nested change) c) :
    Taken (halting (recording t outcomes action) c).1 ∧
      (halting (recording t outcomes action) c).2.Busy total base := by
  rcases proper.nested_cases busy.standing with ⟨cause, run⟩ | ⟨a, db, run, continues, standing⟩
  · exact busy.push (same.trans (onDatabase_eq run)) (.refl busy.standing.grounded.sound) busy.standing
      (.inr ⟨cause, rfl⟩)
  · exact busy.push (same.trans (onDatabase_eq run)) continues standing (.inl ⟨a, rfl⟩)

theorem Busy.pushOperation (busy : c.Busy total base) (op : Operation) :
    Taken (pushOperation op c).1 ∧ (pushOperation op c).2.Busy total base := by
  obtain ⟨running, time, opened⟩ := busy.ready
  unfold Chain.pushOperation
  rw [running, opened]
  exact busy.pushChange (op.perform_proper c.config time []) rfl

theorem Busy.pushTransaction (busy : c.Busy total base) (t : Transaction) :
    Taken (pushTransaction t c).1 ∧ (pushTransaction t c).2.Busy total base := by
  obtain ⟨running, time, opened⟩ := busy.ready
  unfold Chain.pushTransaction
  rw [running]
  dsimp only
  cases approved : t.approve c.config with
  | error cause =>
    have refused : performTransaction t c = (.error (.refused cause), { c with db := c.db }) := by
      unfold performTransaction
      rw [opened, approved]
      rfl
    exact busy.push refused (.refl busy.standing.grounded.sound) busy.standing (.inr ⟨cause, rfl⟩)
  | ok _ =>
    apply busy.pushChange (Transaction.operations_proper t.operations c.config time)
    unfold performTransaction
    rw [opened, approved]
    rfl

theorem Busy.abort (busy : c.Busy total base) :
    ∃ after, Chain.abort c = (.ok (), after) ∧ after.Idle total ∧ after.halted = none :=
  ⟨_, abort_inBlock busy.inside, ⟨rfl, busy.level, busy.before⟩, busy.running⟩

def Failed (ω : Type) [Observer ω] (e : ChainError) : Prop :=
  ∃ (db : Database) (notice : Notice) (observer : ω) (reason : String),
    (Observer.tell db notice observer).1 = .error reason ∧
      e = .notification (Observer.name (Observer.tell db notice observer).2) notice.name reason

theorem tellEach_error [Observer ω] {db : Database} {notice : Notice} {observers left : List ω} {e : ChainError}
    (failed : Observer.tellEach db notice observers = (.error e, left)) : Failed ω e := by
  induction observers generalizing left with
  | nil => cases failed
  | cons observer rest ih =>
    rw [Observer.tellEach] at failed
    cases told : Observer.tell db notice observer with
    | mk result after =>
      rw [told] at failed
      cases result with
      | error reason =>
        cases failed
        exact ⟨db, notice, observer, reason, by rw [told], by rw [told]⟩
      | ok _ =>
        cases others : Observer.tellEach db notice rest with
        | mk result rest' =>
          rw [others] at failed
          cases failed
          exact ih others

theorem publish_error [Observer ω] {db : Database} {notices : List Notice} {observers left : List ω}
    {e : ChainError} (failed : Observer.publish db notices observers = (.error e, left)) : Failed ω e := by
  induction notices generalizing observers left with
  | nil => cases failed
  | cons notice later ih =>
    rw [Observer.publish] at failed
    cases told : Observer.tellEach db notice observers with
    | mk result observers' =>
      rw [told] at failed
      cases result with
      | ok _ => exact ih failed
      | error cause =>
        cases failed
        exact tellEach_error told

theorem Failed.isFatal [Observer ω] {e : ChainError} (failed : Failed ω e) : e.isFatal = true := by
  obtain ⟨_, _, _, _, _, rfl⟩ := failed
  rfl

theorem Busy.conclude [Observer ω] (busy : c.Busy total base) :
    (∃ receipt after, Chain.conclude c = (.ok receipt, after) ∧ after.Idle total ∧ after.halted = none) ∨
      ∃ e after, Chain.conclude c = (.error e, after) ∧ after.Idle total ∧ Failed ω e := by
  have depth : c.db.depth = base.depth + 1 := busy.inside.continues.depth
  have noted : c.db.depth ≠ 0 := by omega
  obtain ⟨block, opened⟩ := Option.isSome_iff_exists.mp busy.inside.opened
  unfold Chain.conclude announce
  simp only [opened, noted, if_false]
  cases told : Observer.publish c.db (c.db.netChanges.notices block.receipt) c.observers with
  | mk result observers =>
    cases result with
    | ok _ =>
      obtain ⟨after, run, kept⟩ := commit_of_continues busy.inside.sound busy.inside.continues
      have standing := busy.standing.commit run (kept.sound busy.inside.sound)
      simp only [onDatabase, Change.bind_apply, Change.adapt_apply, run]
      exact .inl ⟨_, _, rfl, ⟨rfl, kept.depth.trans busy.level, standing⟩, busy.running⟩
    | error e =>
      simp only [onDatabase, Change.bind_apply, rollback_of_continues busy.inside.sound busy.inside.continues]
      exact .inr ⟨_, _, rfl, ⟨rfl, busy.level, busy.before⟩, publish_error told⟩

theorem Idle.halt (idle : c.Idle total) (e : ChainError) : (c.halt e).Idle total :=
  ⟨by rw [openBlock_halt, idle.closed], by rw [db_halt, idle.level], by rw [db_halt]; exact idle.standing⟩

-- A commit keeps the block, unless an observer fails; then the block is gone and the chain stops.
theorem Busy.commit [Observer ω] (busy : c.Busy total base) :
    (∃ receipt after, Chain.commit c = (.ok receipt, after) ∧ after.Idle total ∧ after.halted = none) ∨
      ∃ e after, Chain.commit c = (.error e, after) ∧ after.Idle total ∧ after.halted.isSome ∧ Failed ω e := by
  unfold Chain.commit
  rw [busy.ready.1]
  dsimp only
  unfold halting
  rcases busy.conclude with ⟨receipt, after, run, idle, running⟩ | ⟨e, after, run, idle, failed⟩
  · rw [run]
    exact .inl ⟨receipt, after, rfl, idle, running⟩
  · rw [run]
    exact .inr ⟨e, after.halt e, rfl, idle.halt e, isSome_halted_halt failed.isFatal after, failed⟩

theorem Busy.pushAll (transactions : List Transaction) (busy : c.Busy total base) :
    (∃ after, Chain.pushAll transactions c = (.ok (), after) ∧ after.Busy total base) ∨
      ∃ cause after, Chain.pushAll transactions c = (.error (.refused cause), after) ∧ after.Idle total ∧
        after.halted = none := by
  induction transactions generalizing c with
  | nil => exact .inl ⟨c, rfl, busy⟩
  | cons t rest ih =>
    obtain ⟨taken, kept⟩ := busy.pushTransaction t
    rw [Chain.pushAll]
    cases made : Chain.pushTransaction t c with
    | mk result mid =>
      rw [made] at taken kept
      rcases taken with ⟨a, rfl⟩ | ⟨cause, rfl⟩
      · exact ih kept
      · obtain ⟨after, aborted, idle, running⟩ := kept.abort
        by_cases ends : (ChainError.isFatal (.refused cause) || mid.config.atomicity == .wholeBlock) = true
        · simp only [ends, if_true, bind_apply, aborted]
          exact .inr ⟨cause, after, rfl, idle, running⟩
        · simp only [ends]
          exact ih kept

inductive Ended (ω : Type) [Observer ω] (before after : Option String) : Except ChainError Unit → Prop where
  | well (same : after = before) : Ended ω before after (.ok ())
  | refused (same : after = before) (cause : Refusal) : Ended ω before after (.error (.refused cause))
  | failed (stopped : after.isSome) {e : ChainError} (failed : Failed ω e) : Ended ω before after (.error e)
  | halted (same : after = before) {reason : String} (stopped : before = some reason) :
      Ended ω before after (.error (.halted reason))

inductive Steady (total : Int) (c : Chain ω) : Prop where
  | idle (idle : c.Idle total)
  | busy {base : Database} (busy : c.Busy total base)

theorem Steady.standing (steady : c.Steady total) : c.db.Standing total := by
  cases steady with
  | idle idle => exact idle.standing
  | busy busy => exact busy.standing

theorem ended_of_taken [Observer ω] {α : Type} {result : Except ChainError α} {before after : Option String}
    (taken : Taken result) (same : after = before) : Ended ω before after (result.map fun _ => ()) := by
  rcases taken with ⟨a, rfl⟩ | ⟨cause, rfl⟩
  · exact .well same
  · exact .refused same cause

theorem Idle.block [Observer ω] (idle : c.Idle total) (b : Block) :
    (applyBlock b c).2.Idle total ∧
      Ended ω c.halted (applyBlock b c).2.halted ((applyBlock b c).1.map fun _ => ()) := by
  unfold applyBlock
  rw [bind_apply]
  rcases idle.begin b.number b.time with ⟨mid, run, busy, running⟩ | ⟨e, run, cause⟩
  · rw [run]
    dsimp only
    rw [bind_apply]
    rcases busy.pushAll b.transactions with ⟨full, run, busy⟩ | ⟨cause, after, run, idle, stopped⟩
    · rw [run]
      dsimp only
      rcases busy.commit with ⟨receipt, after, run, idle, stopped⟩ | ⟨e, after, run, idle, stopped, failed⟩
      · rw [run]
        exact ⟨idle, .well (stopped.trans running.symm)⟩
      · rw [run]
        exact ⟨idle, .failed stopped failed⟩
    · rw [run]
      exact ⟨idle, .refused (stopped.trans running.symm) cause⟩
  · rw [run]
    refine ⟨idle, ?_⟩
    rcases cause with ⟨cause, rfl⟩ | ⟨reason, rfl, stopped⟩
    · exact .refused rfl cause
    · exact .halted rfl stopped

theorem Idle.run_begin [Observer ω] (idle : c.Idle total) (number : UInt32) (time : Timestamp) :
    (beginBlock number time c).2.Steady total ∧
      Ended ω c.halted (beginBlock number time c).2.halted (beginBlock number time c).1 := by
  rcases idle.begin number time with ⟨mid, run, busy, running⟩ | ⟨e, run, cause⟩
  · rw [run]
    exact ⟨.busy busy, .well (busy.running.trans running.symm)⟩
  · rw [run]
    refine ⟨.idle idle, ?_⟩
    rcases cause with ⟨cause, rfl⟩ | ⟨reason, rfl, stopped⟩
    · exact .refused rfl cause
    · exact .halted rfl stopped

theorem Busy.run_commit [Observer ω] (busy : c.Busy total base) :
    (Chain.commit c).2.Steady total ∧
      Ended ω c.halted (Chain.commit c).2.halted ((Chain.commit c).1.map fun _ => ()) := by
  rcases busy.commit with ⟨receipt, after, run, idle, stopped⟩ | ⟨e, after, run, idle, stopped, failed⟩
  · rw [run]
    exact ⟨.idle idle, .well (stopped.trans busy.running.symm)⟩
  · rw [run]
    exact ⟨.idle idle, .failed stopped failed⟩

theorem call_steady [Observer ω] (steady : c.Steady total) (call : Call) (inTurn : call.inTurn c) :
    (call.run c).2.Steady total ∧ Ended ω c.halted (call.run c).2.halted (call.run c).1 := by
  -- In each state, the calls that are not in their turn are those of the other one.
  cases steady with
  | idle idle =>
    have closed := idle.closed
    cases call with
    | begin number time => exact idle.run_begin number time
    | block b =>
      obtain ⟨idle, ended⟩ := idle.block b
      exact ⟨.idle idle, ended⟩
    | operation _ | transaction _ | commit | abort | drop =>
      change c.openBlock.isSome at inTurn
      rw [closed] at inTurn
      cases inTurn
  | busy busy =>
    have opened := busy.inside.opened
    cases call with
    | begin _ _ | block _ =>
      change c.openBlock = none at inTurn
      rw [inTurn] at opened
      cases opened
    | operation op =>
      obtain ⟨taken, busy'⟩ := busy.pushOperation op
      exact ⟨.busy busy', ended_of_taken taken (busy'.running.trans busy.running.symm)⟩
    | transaction t =>
      obtain ⟨taken, busy'⟩ := busy.pushTransaction t
      exact ⟨.busy busy', ended_of_taken taken (busy'.running.trans busy.running.symm)⟩
    | commit => exact busy.run_commit
    | abort =>
      obtain ⟨after, run, idle, running⟩ := busy.abort
      simp only [Call.run, run]
      exact ⟨.idle idle, .well (running.trans busy.running.symm)⟩
    | drop =>
      obtain ⟨after, run, idle, running⟩ := busy.abort
      simp only [Call.run, run]
      exact ⟨.idle idle, .well (running.trans busy.running.symm)⟩

theorem start_steady {config : Config} {genesis : Genesis} {observers : List ω}
    (started : start config genesis observers = .ok c) :
    c.Steady genesis.granted ∧ c.halted = none := by
  obtain ⟨standing, level, closed, running⟩ := start_eq_ok started
  exact ⟨.idle ⟨closed, level, standing⟩, running⟩

theorem run_steady [Observer ω] {answers : List (Except ChainError Unit)} (steady : c.Steady total)
    (run : Run c answers last) : last.Steady total := by
  induction run with
  | nil => exact steady
  | call _ call inTurn ih => exact (call_steady ih call inTurn).1

-- A chain that has stopped was stopped by an observer, and nothing but an observer stops it.
theorem run_answers [Observer ω] {answers : List (Except ChainError Unit)} (steady : c.Steady total)
    (running : c.halted = none) (run : Run c answers last) :
    (last.halted.isSome → ∃ e, Failed ω e ∧ .error e ∈ answers) ∧
      ∀ before e later, answers = before ++ .error e :: later →
        (∃ cause, e = .refused cause) ∨ Failed ω e ∨
          ∃ reason, e = .halted reason ∧ ∃ first, Failed ω first ∧ .error first ∈ before := by
  induction run with
  | nil =>
    refine ⟨fun stopped => ?_, fun before e later split => ?_⟩
    · rw [running] at stopped
      cases stopped
    · exact absurd split (by simp)
  | @call answers last earlier call inTurn ih =>
    obtain ⟨stops, ends⟩ := ih
    have ended := (call_steady (run_steady steady earlier) call inTurn).2
    generalize (call.run last).1 = answer at ended
    generalize (call.run last).2 = after at ended
    refine ⟨fun stopped => ?_, fun before e later split => ?_⟩
    · cases ended with
      | well same | refused same _ | halted same _ =>
        obtain ⟨e, failed, answered⟩ := stops (by rw [← same]; exact stopped)
        exact ⟨e, failed, List.mem_append_left _ answered⟩
      | @failed _ e failed => exact ⟨e, failed, List.mem_append_right _ (List.mem_singleton.mpr rfl)⟩
    -- The error is the last answer, or it is among those of the earlier run.
    · rcases List.eq_nil_or_concat later with rfl | ⟨rest, other, rfl⟩
      · obtain ⟨rfl, one⟩ := List.append_inj' split rfl
        obtain rfl : answer = .error e := by simpa using one
        cases ended with
        | refused _ cause => exact .inl ⟨cause, rfl⟩
        | failed _ failed => exact .inr (.inl failed)
        | halted _ stopped => exact .inr (.inr ⟨_, rfl, stops (by rw [stopped]; rfl)⟩)
      · rw [List.concat_eq_append, ← List.cons_append, ← List.append_assoc] at split
        exact ends before e rest (List.append_inj' split rfl).1

-- The databases that operations are examined on: one alone, and one after others of its transaction,
-- with what these answered.
inductive Examined (c : Chain ω) (time : Timestamp) : Database → List Outcome → Prop where
  | alone : Examined c time c.db.push []
  | within {operations : List Operation} {results : List Outcome} {db : Database}
      (performed : operations.foldlM (Transaction.performNext c.config time) [] c.db.push = (.ok results, db)) :
      Examined c time db.push results

theorem Examined.standing {time : Timestamp} {db : Database} {results : List Outcome}
    (examined : c.Examined time db results) (steady : c.Steady total) : db.Standing total := by
  have standing := steady.standing
  cases examined with
  | alone => exact standing.push
  | @within operations results db performed =>
    rcases (Transaction.operations_proper operations c.config time).ends c.db.push standing.push with
      ⟨cause, mid, run⟩ | ⟨a, after, run, left⟩
    · rw [performed] at run
      cases run
    · rw [performed] at run
      cases run
      exact left.push

structure Approved (c : Chain ω) (time : Timestamp) (db : Database) (results : List Outcome) (op : Operation)
    (globals : Globals) (approval : op.Approval) : Prop where
  validated : op.validate = .ok ()
  scheduled : db.get .globals globalsId.id = .ok globals
  approved : op.approve ⟨db, c.config, time, op.scheduledFee globals.parameters.fees, results⟩ = .ok approval

theorem Approved.settles {time : Timestamp} {db : Database} {results : List Outcome} {op : Operation}
    {globals : Globals} {approval : op.Approval} (approved : c.Approved time db results op globals approval)
    (standing : db.Standing total) :
    ∃ outcome after, op.settle time (op.scheduledFee globals.parameters.fees) (some approval) db =
      (.ok outcome, after) := by
  obtain ⟨outcome, after, run, -⟩ := op.settle_standing (c := ⟨db, c.config, time, _, results⟩) standing
    (op.scheduledFee_nonneg _) approved.validated approved.approved time
  exact ⟨outcome, after, run⟩

end RoomLedger.Chain
