import RoomLedger.Chain.Basic
import RoomLedger.Proofs.RuleWrites

namespace RoomLedger

open Database

variable {ε α β : Type} {db base mid after : Database}

namespace Change

variable {change : Change ε α}

def Continuing (change : Change ε α) : Prop := ∀ db : Database, db.Sound → db.Continues (change db).2

theorem Edits.continuing {kinds : List Kind} (edits : change.Edits kinds) : change.Continuing :=
  fun db sound => (edits db).continues sound

theorem pure_continuing (a : α) : Continuing (pure a : Change ε α) := fun _ sound => .refl sound

theorem bind_continuing {next : α → Change ε β} (first : change.Continuing)
    (later : ∀ a, (next a).Continuing) : (change >>= next).Continuing := by
  intro db sound
  rw [bind_apply]
  have early := first db sound
  cases made : change db with
  | mk result mid =>
    rw [made] at early
    cases result with
    | error e => exact early
    | ok a => exact early.trans (later a mid (early.sound sound))

theorem foldlM_continuing {step : β → α → Change ε β} (each : ∀ b a, (step b a).Continuing)
    (list : List α) (b : β) : (list.foldlM step b).Continuing := by
  induction list generalizing b with
  | nil => exact pure_continuing b
  | cons a rest ih =>
    rw [List.foldlM_cons]
    exact bind_continuing (each b a) ih

end Change

theorem nested_cases {change : Change ChainError α} (continuing : change.Continuing) (sound : db.Sound) :
    (∃ a mid after, change db.push = (.ok a, mid) ∧ db.push.Continues mid ∧
      commit mid = (.ok (), after) ∧ nested change db = (.ok a, after) ∧ db.Continues after) ∨
    (∃ e mid, change db.push = (.error e, mid) ∧ nested change db = (.error e, db)) := by
  have continues := continuing db.push (push_sound sound)
  unfold nested
  cases made : change db.push with
  | mk result mid =>
    rw [made] at continues
    cases result with
    | ok a =>
      obtain ⟨after, run, kept⟩ := commit_of_continues sound continues
      exact .inl ⟨a, mid, after, rfl, continues, run, by simp only [run], kept⟩
    | error e => exact .inr ⟨e, mid, rfl, by simp only [undo_of_continues sound continues]⟩

theorem nested_error {change : Change ChainError α} {e : ChainError} (continuing : change.Continuing)
    (sound : db.Sound) (failed : nested change db = (.error e, after)) : after = db := by
  rcases nested_cases continuing sound with ⟨a, mid, last, _, _, _, run, _⟩ | ⟨cause, mid, _, run⟩
  · rw [run] at failed; cases failed
  · rw [run] at failed; cases failed; rfl

theorem nested_continuing {change : Change ChainError α} (continuing : change.Continuing) :
    (nested change).Continuing := by
  intro db sound
  rcases nested_cases continuing sound with ⟨a, mid, last, _, _, _, run, kept⟩ | ⟨cause, mid, _, run⟩
  · rw [run]; exact kept
  · rw [run]; exact .refl sound

theorem Operation.perform_continuing (op : Operation) (config : Config) (time : Timestamp)
    (results : List Outcome) : (op.perform config time results).Continuing :=
  (op.perform_edits config time results).continuing

namespace Transaction

theorem performNext_continuing (config : Config) (time : Timestamp) (results : List Outcome)
    (op : Operation) : (performNext config time results op).Continuing :=
  Change.bind_continuing (nested_continuing (op.perform_continuing config time results)) fun _ =>
    Change.pure_continuing _

theorem operations_continuing (t : Transaction) (config : Config) (time : Timestamp) :
    Change.Continuing (t.operations.foldlM (performNext config time) []) :=
  Change.foldlM_continuing (performNext_continuing config time) t.operations []

end Transaction

namespace Chain

variable {ω : Type} {c : Chain ω}

@[simp] theorem db_halt (e : ChainError) (c : Chain ω) : (c.halt e).db = c.db := by
  unfold halt
  split <;> rfl

@[simp] theorem openBlock_halt (e : ChainError) (c : Chain ω) : (c.halt e).openBlock = c.openBlock := by
  unfold halt
  split <;> rfl

theorem db_halting (action : Action ω α) (c : Chain ω) : (halting action c).2.db = (action c).2.db := by
  unfold halting
  split <;> rename_i made <;> rw [made]
  exact db_halt _ _

theorem openBlock_halting (action : Action ω α) (c : Chain ω) :
    (halting action c).2.openBlock = (action c).2.openBlock := by
  unfold halting
  split <;> rename_i made <;> rw [made]
  exact openBlock_halt _ _

theorem answer_halting (action : Action ω α) (c : Chain ω) : (halting action c).1 = (action c).1 := by
  unfold halting
  split <;> rename_i made <;> rw [made]

theorem bind_apply (action : Action ω α) (next : α → Action ω β) (c : Chain ω) :
    (action >>= next) c = match action c with
      | (.ok a, c) => next a c
      | (.error e, c) => (.error e, c) := by
  change (match action c with | (result, c) => ExceptT.bindCont next result c) = _
  obtain ⟨result, after⟩ := action c
  cases result <;> rfl

theorem answer_recording (t : Transaction) (outcomes : α → List Outcome) (action : Action ω α)
    (c : Chain ω) : (recording t outcomes action c).1 = (action c).1 := rfl

theorem db_recording (t : Transaction) (outcomes : α → List Outcome) (action : Action ω α)
    (c : Chain ω) : (recording t outcomes action c).2.db = (action c).2.db := rfl

theorem isSome_openBlock_recording (t : Transaction) (outcomes : α → List Outcome) {action : Action ω α}
    (keeps : (action c).2.openBlock = c.openBlock) :
    (recording t outcomes action c).2.openBlock.isSome = c.openBlock.isSome := by
  change ((action c).2.openBlock.map _).isSome = _
  rw [keeps, Option.isSome_map]

theorem pushOperation_cases (op : Operation) (c : Chain ω) :
    (∃ e, pushOperation op c = (.error e, c)) ∨
    ∃ time, (pushOperation op c).1 = (nested (op.perform c.config time []) c.db).1 ∧
      (pushOperation op c).2.db = (nested (op.perform c.config time []) c.db).2 ∧
      (pushOperation op c).2.openBlock.isSome = c.openBlock.isSome := by
  unfold pushOperation
  split
  · rename_i e _
    exact .inl ⟨e, rfl⟩
  · rename_i time _
    refine .inr ⟨time, answer_halting _ _, db_halting _ _, ?_⟩
    rw [openBlock_halting]
    exact isSome_openBlock_recording _ _ rfl

theorem pushTransaction_cases (t : Transaction) (c : Chain ω) :
    (∃ e, (pushTransaction t c).1 = .error e ∧ (pushTransaction t c).2.db = c.db ∧
      (pushTransaction t c).2.openBlock.isSome = c.openBlock.isSome) ∨
    ∃ time, (pushTransaction t c).1 = (t.perform c.config time c.db).1 ∧
      (pushTransaction t c).2.db = (t.perform c.config time c.db).2 ∧
      (pushTransaction t c).2.openBlock.isSome = c.openBlock.isSome := by
  unfold pushTransaction
  split
  · rename_i e _
    exact .inl ⟨e, rfl, rfl, rfl⟩
  · rw [answer_halting, db_halting, openBlock_halting, answer_recording, db_recording]
    unfold performTransaction
    split
    · rename_i e refused
      refine .inl ⟨e, rfl, rfl, isSome_openBlock_recording _ _ ?_⟩
      rw [refused]
    · rename_i time ready
      refine .inr ⟨time, rfl, rfl, isSome_openBlock_recording _ _ ?_⟩
      rw [ready]
      rfl

theorem pushOperation_error {op : Operation} {e : ChainError} {last : Chain ω} (sound : c.db.Sound)
    (failed : pushOperation op c = (.error e, last)) : last.db = c.db := by
  rcases pushOperation_cases op c with ⟨cause, same⟩ | ⟨time, answer, db, -⟩
  · rw [same] at failed
    cases failed
    rfl
  · rw [failed] at answer db
    rw [db]
    exact nested_error (op.perform_continuing c.config time []) sound (Prod.ext answer.symm rfl)

theorem pushTransaction_error {t : Transaction} {e : ChainError} {last : Chain ω} (sound : c.db.Sound)
    (failed : pushTransaction t c = (.error e, last)) : last.db = c.db := by
  rcases pushTransaction_cases t c with ⟨cause, -, db, -⟩ | ⟨time, answer, db, -⟩
  · rwa [failed] at db
  · rw [failed] at answer db
    rw [db]
    exact nested_error (t.operations_continuing c.config time) sound (Prod.ext answer.symm rfl)

structure InBlock (base : Database) (c : Chain ω) : Prop where
  sound : base.Sound
  continues : base.push.Continues c.db
  opened : c.openBlock.isSome

theorem InBlock.current (inside : InBlock base c) : c.db.Sound :=
  inside.continues.sound (push_sound inside.sound)

theorem pushTransaction_inBlock (inside : InBlock base c) (t : Transaction) :
    InBlock base (pushTransaction t c).2 := by
  rcases pushTransaction_cases t c with ⟨cause, -, db, opened⟩ | ⟨time, -, db, opened⟩
  · exact ⟨inside.sound, by rw [db]; exact inside.continues, by rw [opened]; exact inside.opened⟩
  · have kept := nested_continuing (t.operations_continuing c.config time) c.db inside.current
    exact ⟨inside.sound, by rw [db]; exact inside.continues.trans kept, by rw [opened]; exact inside.opened⟩

theorem rollback_of_continues (sound : base.Sound) (continues : base.push.Continues db) :
    rollback db = (.ok (), base) := by
  unfold rollback
  rw [Change.adapt_apply, undo_of_continues sound continues]
  rfl

theorem abandon_inBlock (inside : InBlock base c) :
    abandon c = (.ok (), { c with db := base, openBlock := none }) := by
  unfold abandon
  cases opened : c.openBlock with
  | none => have := inside.opened; rw [opened] at this; cases this
  | some block =>
    simp only [onDatabase, rollback_of_continues inside.sound inside.continues]

theorem abort_inBlock (inside : InBlock base c) :
    abort c = (.ok (), { c with db := base, openBlock := none }) := by
  unfold abort halting
  rw [abandon_inBlock inside]

theorem conclude_inBlock [Observer ω] (inside : InBlock base c) :
    (conclude c).2.openBlock = none ∧ match (conclude c).1 with
      | .ok _ => base.Continues (conclude c).2.db
      | .error _ => (conclude c).2.db = base := by
  have depth : c.db.depth = base.depth + 1 := inside.continues.depth
  have noted : c.db.depth ≠ 0 := by omega
  unfold conclude
  cases opened : c.openBlock with
  | none => have := inside.opened; rw [opened] at this; cases this
  | some block =>
    simp only [noted, if_false]
    cases told : announce block.receipt { c with openBlock := none } with
    | mk result mid =>
      have same : mid.db = c.db ∧ mid.openBlock = none := by
        unfold announce at told
        cases told
        exact ⟨rfl, rfl⟩
      cases result with
      | ok _ =>
        obtain ⟨after, run, kept⟩ := commit_of_continues inside.sound inside.continues
        simp only [onDatabase, Change.bind_apply, Change.adapt_apply, same, run]
        exact ⟨rfl, kept⟩
      | error e =>
        simp only [onDatabase, Change.bind_apply, same,
          rollback_of_continues inside.sound inside.continues]
        exact ⟨rfl, rfl⟩

theorem commit_inBlock [Observer ω] (inside : InBlock base c) :
    (commit c).2.openBlock = none ∧ match (commit c).1 with
      | .ok _ => base.Continues (commit c).2.db
      | .error _ => (commit c).2.db = base := by
  unfold commit
  split
  · rw [openBlock_halting, answer_halting, db_halting]
    exact conclude_inBlock inside
  · simp only [bind_apply, abandon_inBlock inside]
    exact ⟨rfl, rfl⟩

theorem pushAll_inBlock (transactions : List Transaction) (inside : InBlock base c) :
    match pushAll transactions c with
    | (.ok _, last) => InBlock base last
    | (.error _, last) => last.openBlock = none ∧ last.db = base := by
  induction transactions generalizing c with
  | nil => exact inside
  | cons t rest ih =>
    have kept := pushTransaction_inBlock inside t
    rw [pushAll]
    cases made : pushTransaction t c with
    | mk result mid =>
      rw [made] at kept
      cases result with
      | ok _ => exact ih kept
      | error e =>
        by_cases ends : (e.isFatal || mid.config.atomicity == .wholeBlock) = true
        · simp only [ends, if_true, bind_apply, abort_inBlock kept]
          exact ⟨rfl, rfl⟩
        · simp only [ends]
          exact ih kept

-- A block is not open after a call that failed, unless it was before the call and was left as it was.
def Closed (e : ChainError) (c last : Chain ω) : Prop :=
  last.openBlock = none ∨
    last = c ∧ c.openBlock.isSome ∧ (e = .sessionAlreadyOpen ∨ ∃ reason, e = .halted reason)

theorem approveBlock_error {number : UInt32} {time : Timestamp} {e : ChainError}
    (refused : c.approveBlock number time = .error e) : Closed e c c := by
  unfold approveBlock ensureRunning at refused
  cases stopped : c.halted with
  | some reason =>
    rw [stopped] at refused
    cases refused
    cases opened : c.openBlock with
    | none => exact .inl opened
    | some block => exact .inr ⟨rfl, by rw [opened]; rfl, .inr ⟨reason, rfl⟩⟩
  | none =>
    rw [stopped] at refused
    cases opened : c.openBlock with
    | none => exact .inl opened
    | some block =>
      rw [opened] at refused
      cases refused
      exact .inr ⟨rfl, by rw [opened]; rfl, .inl rfl⟩

theorem approveBlock_ok {number : UInt32} {time : Timestamp}
    (approved : c.approveBlock number time = .ok ()) : c.openBlock = none := by
  unfold approveBlock ensureRunning at approved
  cases stopped : c.halted with
  | some reason => rw [stopped] at approved; cases approved
  | none =>
    rw [stopped] at approved
    cases opened : c.openBlock with
    | none => rfl
    | some block => rw [opened] at approved; cases approved

theorem beginBlock_cases (number : UInt32) (time : Timestamp) (sound : c.db.Sound) :
    (∃ e, beginBlock number time c = (.error e, c) ∧ Closed e c c) ∨
    (∃ e, (beginBlock number time c).1 = .error e ∧ (beginBlock number time c).2.db = c.db ∧
      (beginBlock number time c).2.openBlock = none) ∨
    (∃ last, beginBlock number time c = (.ok (), last) ∧ InBlock c.db last) := by
  unfold beginBlock
  split
  · rename_i e refused
    exact .inl ⟨e, rfl, approveBlock_error refused⟩
  · rename_i approved
    have continues := modify_continues (k := .head) (push_sound sound) headId.id fun h =>
      { h with number := number, time := time }
    dsimp only
    cases made : modify .head headId.id (fun h => { h with number := number, time := time }) c.db.push with
    | mk result mid =>
      rw [made] at continues
      cases result with
      | ok _ =>
        exact .inr (.inr ⟨{ c with db := mid, openBlock := some ⟨.empty number time, 0⟩ }, rfl, sound,
          continues, rfl⟩)
      | error cause =>
        have undone := rollback_of_continues sound continues
        refine .inr (.inl ⟨.database cause, ?_, ?_, ?_⟩)
        · simp only [answer_halting, onDatabase, Change.bind_apply, undone]
          rfl
        · simp only [db_halting, onDatabase, Change.bind_apply, undone]
          rfl
        · have closed := approveBlock_ok approved
          rw [openBlock_halting]
          exact closed

theorem beginBlock_error {number : UInt32} {time : Timestamp} {e : ChainError} {last : Chain ω}
    (sound : c.db.Sound) (failed : beginBlock number time c = (.error e, last)) :
    last.db = c.db ∧ Closed e c last := by
  rcases beginBlock_cases number time sound with ⟨cause, run, closed⟩ | ⟨cause, _, db, closed⟩ | ⟨mid, run, _⟩
  · rw [run] at failed
    cases failed
    exact ⟨rfl, closed⟩
  · rw [failed] at db closed
    exact ⟨db, .inl closed⟩
  · rw [run] at failed
    cases failed

theorem applyBlock_error [Observer ω] {block : Block} {e : ChainError} {last : Chain ω}
    (sound : c.db.Sound) (failed : applyBlock block c = (.error e, last)) :
    last.db = c.db ∧ Closed e c last := by
  unfold applyBlock at failed
  rw [bind_apply] at failed
  rcases beginBlock_cases block.number block.time sound with
    ⟨cause, run, closed⟩ | ⟨cause, answer, db, closed⟩ | ⟨mid, run, inside⟩
  · rw [run] at failed
    cases failed
    exact ⟨rfl, closed⟩
  · cases run : beginBlock block.number block.time c with
    | mk result mid =>
      rw [run] at answer db closed failed
      cases answer
      cases failed
      exact ⟨db, .inl closed⟩
  · rw [run] at failed
    simp only [bind_apply] at failed
    have pushes := pushAll_inBlock block.transactions inside
    cases pushed : pushAll block.transactions mid with
    | mk result after =>
      rw [pushed] at failed pushes
      cases result with
      | error cause =>
        cases failed
        exact ⟨pushes.2, .inl pushes.1⟩
      | ok _ =>
        have ends := commit_inBlock pushes
        dsimp only at failed
        rw [failed] at ends
        exact ⟨ends.2, .inl ends.1⟩

-- Whatever fails, at whatever point: the records, counters and listings and what the open sessions
-- changed are as they were before the call.
theorem failures_leave_no_trace [Observer ω] (c : Chain ω) (sound : c.db.Sound) :
    (∀ op e last, pushOperation op c = (.error e, last) → last.db = c.db) ∧
    (∀ t e last, pushTransaction t c = (.error e, last) → last.db = c.db) ∧
    (∀ number time e last, beginBlock number time c = (.error e, last) →
      last.db = c.db ∧ Closed e c last) ∧
    (∀ block e last, applyBlock block c = (.error e, last) → last.db = c.db ∧ Closed e c last) :=
  ⟨fun _ _ _ failed => pushOperation_error sound failed,
    fun _ _ _ failed => pushTransaction_error sound failed,
    fun _ _ _ _ failed => beginBlock_error sound failed,
    fun _ _ _ failed => applyBlock_error sound failed⟩

-- A ledger that has lost the record of its supply. What is approved there fails as late as it can: the
-- money has been moved, and the fee has been taken from its payer.
def unbacked : Database :=
  let populated := (Genesis.ofAccounts ⟨0⟩ [⟨"alice", 1000000000⟩, ⟨"bob", 0⟩]).populate empty.registerAll
  (remove .supply (⟨0⟩ : SupplyId).id populated.2).2

theorem unbacked_sound : unbacked.Sound := by
  have registered : empty.registerAll.Sound := (foldl_register_sound Kind.all empty_sound).1
  have edited := Genesis.populate_edits (.ofAccounts ⟨0⟩ [⟨"alice", 1000000000⟩, ⟨"bob", 0⟩])
    empty.registerAll
  exact ((edited.remove (Kind.mem_all .supply) _).continues registered).sound registered

def unbackedChain : Chain Watcher := ⟨unbacked, .permissive, [.idle], none, none⟩

def payment : Transaction := .single (.transfer ⟨.core 2000000, ⟨2⟩, ⟨3⟩, .core 5, none⟩)

theorem failures_leave_no_trace_unbacked :
    unbacked.Sound ∧
    (applyBlock ⟨1, ⟨7⟩, [payment]⟩ unbackedChain).1 =
      .error (.breached (.database "transfer" (.notFound ⟨2, 3, 0⟩))) ∧
    (applyBlock ⟨1, ⟨7⟩, [payment]⟩ unbackedChain).2.db = unbacked :=
  have failed : (applyBlock ⟨1, ⟨7⟩, [payment]⟩ unbackedChain).1 =
      .error (.breached (.database "transfer" (.notFound ⟨2, 3, 0⟩))) := by rfl
  have left := (failures_leave_no_trace unbackedChain unbacked_sound).2.2.2 ⟨1, ⟨7⟩, [payment]⟩ _ _
    (Prod.ext failed rfl)
  ⟨unbacked_sound, failed, left.1⟩

end Chain

end RoomLedger
