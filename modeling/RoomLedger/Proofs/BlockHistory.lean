import RoomLedger.Proofs.ChainRuns
import RoomLedger.Proofs.Transitions

namespace RoomLedger.Chain

open Database

variable {ω : Type} {total : Int} {config : Config} {c last : Chain ω} {base : Database}
  {block : OpenBlock} {history : List BlockReceipt}

def Follows (db : Database) (number : UInt32) (time : Timestamp) : Prop :=
  ∃ head : Head, db.row? .head headId.number = some head ∧ head.number.toNat + 1 = number.toNat ∧
    head.time.seconds ≤ time.seconds

def advance (number : UInt32) (time : Timestamp) : Change DbError Unit :=
  modify .head headId.id fun h => { h with number := number, time := time }

theorem approveBlock_eq_ok_iff (closed : c.openBlock = none) {head : Head}
    (stored : c.db.row? .head headId.number = some head) (number : UInt32) (time : Timestamp) :
    c.approveBlock number time = .ok () ↔ c.halted = none ∧ Follows c.db number time := by
  have found := head_eq_ok stored
  have follows : Follows c.db number time ↔ head.number.toNat + 1 = number.toNat ∧
      head.time.seconds ≤ time.seconds := by
    constructor
    · rintro ⟨other, same, given⟩
      rw [stored] at same
      cases same
      exact given
    · exact fun given => ⟨head, stored, given⟩
  rw [follows]
  unfold approveBlock ensureRunning
  cases stopped : c.halted with
  | some reason =>
    constructor
    · intro approved
      cases approved
    · intro given
      cases given.1
  | none =>
    rw [closed, found]
    by_cases gap : head.number.toNat + 1 ≠ number.toNat
    · constructor
      · intro approved
        cases (if_pos gap).symm.trans approved
      · exact fun given => absurd given.2.1 gap
    · by_cases early : time.seconds < head.time.seconds
      · constructor
        · intro approved
          cases ((if_neg gap).trans (if_pos early)).symm.trans approved
        · intro given
          exact absurd early (UInt32.not_lt.mpr given.2.2)
      · exact ⟨fun _ => ⟨rfl, Decidable.not_not.mp gap, UInt32.not_lt.mp early⟩,
          fun _ => (if_neg gap).trans (if_neg early)⟩

def writing (c : Chain ω) (db : Database) (block : OpenBlock) : Chain ω :=
  { c with db := db, openBlock := some block }

theorem begin_cases (sound : c.db.Sound) (closed : c.openBlock = none) {head : Head}
    (stored : c.db.row? .head headId.number = some head) (number : UInt32) (time : Timestamp) :
    (∃ db, c.halted = none ∧ Follows c.db number time ∧ advance number time c.db.push = (.ok (), db) ∧
      beginBlock number time c = (.ok (), c.writing db ⟨.empty number time, 0⟩)) ∨
    ∃ e, ¬ (c.halted = none ∧ Follows c.db number time) ∧ beginBlock number time c = (.error e, c) ∧
      ((∃ cause, e = .refused cause) ∨ ∃ reason, e = .halted reason ∧ c.halted = some reason) := by
  have approval := approveBlock_eq_ok_iff closed stored number time
  unfold beginBlock
  rcases approveBlock_cases closed stored number time with ⟨approved, -⟩ | ⟨e, refused, cause⟩
  · obtain ⟨running, follows⟩ := approval.mp approved
    rw [row?_eq_contents, ← contents_push c.db, ← row?_eq_contents] at stored
    obtain ⟨db, run⟩ := modify_succeeds (push_sound sound) stored
      (fun h => { h with number := number, time := time })
      fun m other beside collides => absurd collides (Table.not_collides_of_unlisted rfl)
    rw [approved]
    change modify .head headId.id _ c.db.push = _ at run
    simp only [run]
    exact .inl ⟨db, running, follows, run, rfl⟩
  · refine .inr ⟨e, fun ready => ?_, by rw [refused], cause⟩
    rw [approval.mpr ready] at refused
    cases refused

theorem Idle.begin_cases (idle : c.Idle total) (number : UInt32) (time : Timestamp) :
    (∃ db, c.halted = none ∧ Follows c.db number time ∧ advance number time c.db.push = (.ok (), db) ∧
      beginBlock number time c = (.ok (), c.writing db ⟨.empty number time, 0⟩)) ∨
    ∃ e, ¬ (c.halted = none ∧ Follows c.db number time) ∧ beginBlock number time c = (.error e, c) := by
  obtain ⟨head, stored⟩ := idle.standing.head
  rcases Chain.begin_cases idle.standing.grounded.sound idle.closed stored number time with
    begun | ⟨e, unready, run, -⟩
  · exact .inl begun
  · exact .inr ⟨e, unready, run⟩

-- What is pushed is entered in the receipt, whether it is taken or refused.
theorem Busy.push_cases {α : Type} {action : Action ω α} {change : Change ChainError α}
    (busy : c.Busy total base) (opened : c.openBlock = some block) (outcomes : α → List Outcome) (t : Transaction)
    (proper : change.Proper total) (same : action c = onDatabase (nested change) c) :
    (∃ a db, nested change c.db = (.ok a, db) ∧ halting (recording t outcomes action) c =
      (.ok a, c.writing db (OpenBlock.record t (.ok (outcomes a)) block))) ∨
    ∃ cause, nested change c.db = (.error (.refused cause), c.db) ∧ halting (recording t outcomes action) c =
      (.error (.refused cause), c.writing c.db (OpenBlock.record t (.error (.refused cause)) block)) := by
  rcases proper.nested_cases busy.standing with ⟨cause, run⟩ | ⟨a, db, run, -, -⟩
  · refine .inr ⟨cause, run, ?_⟩
    simp only [halting, recording, same.trans (onDatabase_eq run), opened]
    rfl
  · refine .inl ⟨a, db, run, ?_⟩
    simp only [halting, recording, same.trans (onDatabase_eq run), opened]
    rfl

theorem Busy.pushOperation_cases (busy : c.Busy total base) (opened : c.openBlock = some block) (op : Operation) :
    (∃ outcome db, nested (op.perform c.config block.receipt.time []) c.db = (.ok outcome, db) ∧
      Chain.pushOperation op c = (.ok outcome, c.writing db (OpenBlock.record (.single op) (.ok [outcome]) block))) ∨
    ∃ cause, nested (op.perform c.config block.receipt.time []) c.db = (.error (.refused cause), c.db) ∧
      Chain.pushOperation op c =
        (.error (.refused cause), c.writing c.db (OpenBlock.record (.single op) (.error (.refused cause)) block)) := by
  have ready : (do c.ensureRunning; c.blockTime) = .ok block.receipt.time := by
    rw [busy.ready.1, blockTime, opened]
    rfl
  unfold Chain.pushOperation
  rw [ready]
  exact busy.push_cases opened _ _ (op.perform_proper c.config block.receipt.time []) rfl

theorem Busy.pushTransaction_cases (busy : c.Busy total base) (opened : c.openBlock = some block)
    (t : Transaction) :
    (∃ results db, t.approve c.config = .ok () ∧ t.perform c.config block.receipt.time c.db = (.ok results, db) ∧
      Chain.pushTransaction t c = (.ok results, c.writing db (OpenBlock.record t (.ok results) block))) ∨
    ∃ cause, (t.approve c.config = .ok () →
        t.perform c.config block.receipt.time c.db = (.error (.refused cause), c.db)) ∧
      Chain.pushTransaction t c =
        (.error (.refused cause), c.writing c.db (OpenBlock.record t (.error (.refused cause)) block)) := by
  unfold Chain.pushTransaction
  rw [busy.ready.1]
  dsimp only
  cases approved : t.approve c.config with
  | error cause =>
    have refused : performTransaction t c = (.error (.refused cause), c) := by
      unfold performTransaction blockTime
      rw [opened, approved]
      rfl
    refine .inr ⟨cause, fun impossible => (by cases impossible), ?_⟩
    simp only [halting, recording, refused, opened]
    rfl
  | ok _ =>
    have same : performTransaction t c = onDatabase (t.perform c.config block.receipt.time) c := by
      unfold performTransaction blockTime
      rw [opened, approved]
      rfl
    rcases busy.push_cases opened id t
      (Transaction.operations_proper t.operations c.config block.receipt.time) same with
      ⟨results, db, run, answer⟩ | ⟨cause, run, answer⟩
    · exact .inl ⟨results, db, rfl, run, answer⟩
    · exact .inr ⟨cause, fun _ => run, answer⟩

theorem commit_cases [Observer ω] (inside : InBlock base c) (running : c.halted = none)
    (opened : c.openBlock = some block) :
    (∃ db observers, Observer.publish c.db (c.db.netChanges.notices block.receipt) c.observers = (.ok (), observers) ∧
      Database.commit c.db = (.ok (), db) ∧ base.Continues db ∧ Chain.commit c =
        (.ok block.receipt, { c with db := db, openBlock := none, observers := observers })) ∨
    ∃ e after, (Observer.publish c.db (c.db.netChanges.notices block.receipt) c.observers).1 = .error e ∧
      Chain.commit c = (.error e, after) ∧ after.db = base ∧ after.openBlock = none ∧ after.config = c.config := by
  have depth : c.db.depth = base.depth + 1 := inside.continues.depth
  have noted : c.db.depth ≠ 0 := by omega
  have ready : c.ensureRunning = .ok () := by rw [ensureRunning, running]
  unfold Chain.commit
  rw [ready]
  dsimp only
  unfold halting Chain.conclude announce
  simp only [opened, noted, if_false]
  cases told : Observer.publish c.db (c.db.netChanges.notices block.receipt) c.observers with
  | mk result observers =>
    cases result with
    | ok _ =>
      obtain ⟨after, run, kept⟩ := commit_of_continues inside.sound inside.continues
      simp only [onDatabase, Change.bind_apply, Change.adapt_apply, run]
      exact .inl ⟨after, observers, rfl, rfl, kept, rfl⟩
    | error e =>
      simp only [onDatabase, Change.bind_apply, rollback_of_continues inside.sound inside.continues]
      exact .inr ⟨e, _, rfl, rfl, by rw [db_halt], by rw [openBlock_halt], by unfold halt; split <;> rfl⟩

def Call.receipt? [Observer ω] (c : Chain ω) : Call → Option BlockReceipt
  | .commit => (Chain.commit c).1.toOption
  | .block b => (applyBlock b c).1.toOption
  | _ => none

-- The blocks that have been kept since `c`, and what has become of it.
inductive Commits [Observer ω] (c : Chain ω) : List BlockReceipt → Chain ω → Prop where
  | nil : Commits c [] c
  | call {history : List BlockReceipt} {last : Chain ω} (earlier : Commits c history last)
      (call : Call) (inTurn : call.inTurn last) :
      Commits c (history ++ (call.receipt? last).toList) (call.run last).2

theorem Run.commits [Observer ω] {answers : List (Except ChainError Unit)} (run : Run c answers last) :
    ∃ history, Commits c history last := by
  induction run with
  | nil => exact ⟨[], .nil⟩
  | call _ call inTurn ih =>
    obtain ⟨history, commits⟩ := ih
    exact ⟨_, commits.call call inTurn⟩

theorem Commits.run [Observer ω] (commits : Commits c history last) : ∃ answers, Run c answers last := by
  induction commits with
  | nil => exact ⟨[], .nil⟩
  | call _ call inTurn ih =>
    obtain ⟨answers, run⟩ := ih
    exact ⟨_, run.call call inTurn⟩

-- What is true of a database between blocks, and of one in an open block, given the receipts of the
-- blocks that have been kept.
structure Chronicle where
  settled : List BlockReceipt → Database → Prop
  pending : List BlockReceipt → OpenBlock → Database → Prop

namespace Chronicle

variable {tale : Chronicle}

-- A chronicle that is carried on by each thing that can happen to a block is true at every point of
-- every run.
structure CarriedOn (total : Int) (config : Config) (tale : Chronicle) : Prop where
  begin : ∀ history (db after : Database) number time, db.Standing total → db.depth = 0 →
    tale.settled history db → Follows db number time → advance number time db.push = (.ok (), after) →
      tale.pending history ⟨.empty number time, 0⟩ after
  operation : ∀ history block (db after : Database) (op : Operation) outcome, db.Standing total →
    tale.pending history block db →
    nested (op.perform config block.receipt.time []) db = (.ok outcome, after) →
      tale.pending history (OpenBlock.record (.single op) (.ok [outcome]) block) after
  transaction : ∀ history block (db after : Database) (t : Transaction) results, db.Standing total →
    tale.pending history block db → t.approve config = .ok () →
    t.perform config block.receipt.time db = (.ok results, after) →
      tale.pending history (OpenBlock.record t (.ok results) block) after
  refused : ∀ history block (db : Database) (t : Transaction) cause, tale.pending history block db →
    tale.pending history (OpenBlock.record t (.error (.refused cause)) block) db
  commit : ∀ history block (db after : Database), db.Standing total → tale.pending history block db →
    Database.commit db = (.ok (), after) → after.Sound → tale.settled (history ++ [block.receipt]) after

structure TrueIdle (total : Int) (config : Config) (tale : Chronicle) (history : List BlockReceipt)
    (c : Chain ω) : Prop where
  idle : c.Idle total
  config : c.config = config
  settled : tale.settled history c.db

structure TrueBusy (total : Int) (config : Config) (tale : Chronicle) (history : List BlockReceipt)
    (base : Database) (c : Chain ω) : Prop where
  busy : c.Busy total base
  config : c.config = config
  settled : tale.settled history base
  pending : ∃ block, c.openBlock = some block ∧ tale.pending history block c.db

inductive IsTrue (total : Int) (config : Config) (tale : Chronicle) (history : List BlockReceipt)
    (c : Chain ω) : Prop where
  | idle (idle : tale.TrueIdle total config history c)
  | busy {base : Database} (busy : tale.TrueBusy total config history base c)

variable {tale : Chronicle} (carried : tale.CarriedOn total config)

include carried

theorem TrueIdle.begin (holds : tale.TrueIdle total config history c) (number : UInt32) (time : Timestamp) :
    (∃ after, beginBlock number time c = (.ok (), after) ∧ tale.TrueBusy total config history c.db after) ∨
      ∃ e, beginBlock number time c = (.error e, c) := by
  rcases holds.idle.begin_cases number time with ⟨db, -, follows, advanced, run⟩ | ⟨e, -, run⟩
  · refine .inl ⟨_, run, ?_, holds.config, holds.settled, _, rfl, carried.begin _ _ _ _ _ holds.idle.standing
      holds.idle.level holds.settled follows advanced⟩
    rcases holds.idle.begin number time with ⟨after, same, busy, -⟩ | ⟨e, other, -⟩
    · rw [run] at same
      cases same
      exact busy
    · rw [run] at other
      cases other
  · exact .inr ⟨e, run⟩

theorem TrueBusy.pushOperation (holds : tale.TrueBusy total config history base c) (op : Operation) :
    tale.TrueBusy total config history base (Chain.pushOperation op c).2 := by
  obtain ⟨block, opened, pending⟩ := holds.pending
  have busy := (holds.busy.pushOperation op).2
  rcases holds.busy.pushOperation_cases opened op with
    ⟨outcome, db, run, answer⟩ | ⟨cause, -, answer⟩
  · rw [answer] at busy ⊢
    rw [holds.config] at run
    exact ⟨busy, holds.config, holds.settled, _, rfl,
      carried.operation _ _ _ _ _ _ holds.busy.standing pending run⟩
  · rw [answer] at busy ⊢
    exact ⟨busy, holds.config, holds.settled, _, rfl, carried.refused _ _ _ _ _ pending⟩

theorem TrueBusy.pushTransaction (holds : tale.TrueBusy total config history base c) (t : Transaction) :
    tale.TrueBusy total config history base (Chain.pushTransaction t c).2 := by
  obtain ⟨block, opened, pending⟩ := holds.pending
  have busy := (holds.busy.pushTransaction t).2
  rcases holds.busy.pushTransaction_cases opened t with
    ⟨results, db, approved, run, answer⟩ | ⟨cause, -, answer⟩
  · rw [answer] at busy ⊢
    rw [holds.config] at run approved
    exact ⟨busy, holds.config, holds.settled, _, rfl,
      carried.transaction _ _ _ _ _ _ holds.busy.standing pending approved run⟩
  · rw [answer] at busy ⊢
    exact ⟨busy, holds.config, holds.settled, _, rfl, carried.refused _ _ _ _ _ pending⟩

omit carried in
theorem TrueBusy.abort (holds : tale.TrueBusy total config history base c) :
    ∃ after, Chain.abort c = (.ok (), after) ∧ tale.TrueIdle total config history after :=
  ⟨_, abort_inBlock holds.busy.inside, ⟨rfl, holds.busy.level, holds.busy.before⟩, holds.config, holds.settled⟩

theorem TrueBusy.commit [Observer ω] (holds : tale.TrueBusy total config history base c) :
    tale.TrueIdle total config (history ++ (Chain.commit c).1.toOption.toList) (Chain.commit c).2 := by
  obtain ⟨block, opened, pending⟩ := holds.pending
  rcases commit_cases holds.busy.inside holds.busy.running opened with
    ⟨db, observers, -, run, kept, answer⟩ | ⟨e, after, -, answer, same, closed, fixed⟩
  · have sound := kept.sound holds.busy.inside.sound
    rw [answer]
    exact ⟨⟨rfl, kept.depth.trans holds.busy.level, holds.busy.standing.commit run sound⟩, holds.config,
      carried.commit _ _ _ _ holds.busy.standing pending run sound⟩
  · rw [answer]
    refine ⟨⟨closed, same ▸ holds.busy.level, same ▸ holds.busy.before⟩, fixed.trans holds.config, ?_⟩
    change tale.settled (history ++ []) after.db
    rw [List.append_nil, same]
    exact holds.settled

theorem TrueBusy.pushAll (transactions : List Transaction)
    (holds : tale.TrueBusy total config history base c) :
    (∃ after, Chain.pushAll transactions c = (.ok (), after) ∧ tale.TrueBusy total config history base after) ∨
      ∃ e after, Chain.pushAll transactions c = (.error e, after) ∧ tale.TrueIdle total config history after := by
  induction transactions generalizing c with
  | nil => exact .inl ⟨c, rfl, holds⟩
  | cons t rest ih =>
    have kept := holds.pushTransaction carried t
    rw [Chain.pushAll]
    cases made : Chain.pushTransaction t c with
    | mk result mid =>
      rw [made] at kept
      cases result with
      | ok _ => exact ih kept
      | error e =>
        obtain ⟨after, aborted, idle⟩ := kept.abort
        by_cases ends : (e.isFatal || mid.config.atomicity == .wholeBlock) = true
        · simp only [ends, if_true, bind_apply, aborted]
          exact .inr ⟨e, after, rfl, idle⟩
        · simp only [ends]
          exact ih kept

theorem TrueIdle.applyBlock [Observer ω] (holds : tale.TrueIdle total config history c) (b : Block) :
    tale.TrueIdle total config (history ++ (Chain.applyBlock b c).1.toOption.toList) (Chain.applyBlock b c).2 := by
  have unchanged : ∀ {e : ChainError} {after : Chain ω}, tale.TrueIdle total config history after →
      tale.TrueIdle total config
        (history ++ (.error e : Except ChainError BlockReceipt).toOption.toList) after := by
    intro e after idle
    rwa [show (.error e : Except ChainError BlockReceipt).toOption.toList = [] from rfl, List.append_nil]
  unfold Chain.applyBlock
  rw [bind_apply]
  rcases holds.begin carried b.number b.time with ⟨mid, run, busy⟩ | ⟨e, run⟩
  · rw [run]
    dsimp only
    rw [bind_apply]
    rcases busy.pushAll carried b.transactions with ⟨full, run, busy⟩ | ⟨e, after, run, idle⟩
    · rw [run]
      exact busy.commit carried
    · rw [run]
      exact unchanged idle
  · rw [run]
    exact unchanged holds

theorem IsTrue.call [Observer ω] (holds : tale.IsTrue total config history c) (call : Call)
    (inTurn : call.inTurn c) :
    tale.IsTrue total config (history ++ (call.receipt? c).toList) (call.run c).2 := by
  -- A call that keeps no block adds nothing to the history.
  have silent : ∀ {after : Chain ω}, tale.IsTrue total config history after →
      tale.IsTrue total config (history ++ []) after := by
    intro after holds
    rwa [List.append_nil]
  cases holds with
  | idle idle =>
    cases call with
    | begin number time =>
      refine silent ?_
      rcases idle.begin carried number time with ⟨after, run, busy⟩ | ⟨e, run⟩
      · simp only [Call.run, run]
        exact .busy busy
      · simp only [Call.run, run]
        exact .idle idle
    | block b => exact .idle (idle.applyBlock carried b)
    | operation _ | transaction _ | commit | abort | drop =>
      change c.openBlock.isSome at inTurn
      rw [idle.idle.closed] at inTurn
      cases inTurn
  | busy busy =>
    cases call with
    | begin _ _ | block _ =>
      have opened := busy.busy.inside.opened
      change c.openBlock = none at inTurn
      rw [inTurn] at opened
      cases opened
    | operation op => exact silent (.busy (busy.pushOperation carried op))
    | transaction t => exact silent (.busy (busy.pushTransaction carried t))
    | commit => exact .idle (busy.commit carried)
    | abort | drop =>
      obtain ⟨after, run, idle⟩ := busy.abort
      simp only [Call.run, run]
      exact silent (.idle idle)

theorem IsTrue.commits [Observer ω] (holds : tale.IsTrue total config [] c) (commits : Commits c history last) :
    tale.IsTrue total config history last := by
  induction commits with
  | nil => exact holds
  | call _ call inTurn ih => exact ih.call carried call inTurn

end Chronicle

-- A property of databases that sessions do not matter to, and that a new block and an operation keep.
structure Lasting (total : Int) (config : Config) (holds : Database → Prop) : Prop where
  same : ∀ db after : Database, db.Sound → after.Sound → after.contents = db.contents → holds db → holds after
  advance : ∀ (db after : Database) number time, db.Standing total → holds db →
    advance number time db = (.ok (), after) → holds after
  perform : ∀ (db : Database) time fee results (op : Operation) outcome after, db.Standing total → holds db →
    op.Performed ⟨db, config, time, fee, results⟩ outcome after → holds after

variable {holds : Database → Prop}

theorem Lasting.leads (lasting : Lasting total config holds) (op : Operation) (time : Timestamp)
    (results : List Outcome) :
    (op.perform config time results).Leads total fun db after => holds db → holds after :=
  op.perform_leads (fun db fee results outcome after standing performed given =>
    lasting.perform db time fee results op outcome after standing given performed) results

theorem Lasting.carriedOn (lasting : Lasting total config holds) :
    Chronicle.CarriedOn total config ⟨fun _ db => holds db, fun _ _ db => holds db⟩ := by
  have transition := Transition.of_kept lasting.same
  refine ⟨?_, ?_, ?_, fun _ _ _ _ _ given => given, ?_⟩
  · intro _ db after number time standing _ given _ advanced
    have sound := standing.grounded.sound
    exact lasting.advance _ _ _ _ standing.push
      (lasting.same _ _ sound (push_sound sound) (contents_push db) given) advanced
  · intro _ block db after op outcome standing given run
    exact ((lasting.leads op block.receipt.time []).nested transition).leads _ _ _ standing run given
  · intro _ block db after t results standing given _ run
    exact (Transaction.perform_leads transition fun op _ => lasting.leads op block.receipt.time).leads
      _ _ _ standing run given
  · intro _ _ db after standing given run sound
    exact lasting.same _ _ standing.grounded.sound sound (by rw [← contents_commit db, run]) given

-- What lasts and is true at the start is true at every point of a run.
theorem Lasting.isTrue [Observer ω] (lasting : Lasting total config holds) {first : Chain ω}
    {answers : List (Except ChainError Unit)} (idle : first.Idle total) (fixed : first.config = config)
    (given : holds first.db) (run : Run first answers last) :
    ∃ history, Chronicle.IsTrue total config ⟨fun _ db => holds db, fun _ _ db => holds db⟩ history last := by
  obtain ⟨history, commits⟩ := run.commits
  exact ⟨history, Chronicle.IsTrue.commits lasting.carriedOn (.idle ⟨idle, fixed, given⟩) commits⟩

theorem Lasting.run [Observer ω] (lasting : Lasting total config holds) {first : Chain ω}
    {answers : List (Except ChainError Unit)} (idle : first.Idle total) (fixed : first.config = config)
    (given : holds first.db) (run : Run first answers last) : holds last.db := by
  obtain ⟨history, holds⟩ := lasting.isTrue idle fixed given run
  cases holds with
  | idle idle => exact idle.settled
  | busy busy =>
    obtain ⟨block, -, pending⟩ := busy.pending
    exact pending

end RoomLedger.Chain
