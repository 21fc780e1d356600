import RoomLedger.Proofs.LedgerIntegrity

namespace RoomLedger

open Database

variable {ε α β : Type} {db base : Database} {k : Kind}

namespace Change

structure Spares (k : Kind) (change : Change ε α) : Prop where
  continuing : change.Continuing
  contents : ∀ db : Database, db.Sound → (change db).2.contents.get k = db.contents.get k

theorem Edits.spares {kinds : List Kind} {change : Change ε α} (edits : change.Edits kinds) (apart : k ∉ kinds) :
    change.Spares k :=
  ⟨edits.continuing, fun db _ => contents_congr ((edits db).tables apart)⟩

theorem pure_spares (a : α) : Spares k (pure a : Change ε α) := ⟨pure_continuing a, fun _ _ => rfl⟩

theorem Spares.bind {change : Change ε α} {next : α → Change ε β} (first : change.Spares k)
    (later : ∀ a, (next a).Spares k) : (change >>= next).Spares k := by
  refine ⟨bind_continuing first.continuing fun a => (later a).continuing, fun db sound => ?_⟩
  have early := first.contents db sound
  have sound' := (first.continuing db sound).sound sound
  rw [bind_apply]
  cases made : change db with
  | mk result mid =>
    rw [made] at early sound'
    cases result with
    | error e => exact early
    | ok a => exact ((later a).contents mid sound').trans early

theorem foldlM_spares {step : β → α → Change ε β} (each : ∀ b a, (step b a).Spares k) (list : List α) (b : β) :
    (list.foldlM step b).Spares k := by
  induction list generalizing b with
  | nil => exact pure_spares b
  | cons a rest ih =>
    rw [List.foldlM_cons]
    exact (each b a).bind ih

theorem Spares.nested {change : Change ChainError α} (spares : change.Spares k) :
    Change.Spares k (RoomLedger.nested change) := by
  refine ⟨nested_continuing spares.continuing, fun db sound => ?_⟩
  rcases nested_cases spares.continuing sound with ⟨a, mid, after, made, -, committed, run, -⟩ | ⟨e, mid, -, run⟩
  · have inside := spares.contents db.push (push_sound sound)
    rw [made, contents_push] at inside
    have kept := contents_commit mid
    rw [committed] at kept
    rw [run, ← inside]
    change after.contents.get k = _
    rw [kept]
  · rw [run]

end Change

theorem Operation.perform_spares (op : Operation) (config : Config) (time : Timestamp) (results : List Outcome) :
    (op.perform config time results).Spares .head :=
  (op.perform_edits config time results).spares (anchors_not_mem_written op.kind).2

theorem Transaction.perform_spares (t : Transaction) (config : Config) (time : Timestamp) :
    (t.perform config time).Spares .head :=
  Change.Spares.nested (Change.foldlM_spares (fun results op =>
    (op.perform_spares config time results).nested.bind fun _ => Change.pure_spares _) t.operations [])

namespace Genesis

open Change

def headless : List Kind := [.account, .supply, .asset, .balance, .globals]

theorem bind_headless {change : Change ε α} {next : α → Change ε β} {b : β} {after : Database}
    (edits : change.Edits headless) (run : (change >>= next) db = (.ok b, after)) :
    ∃ a mid, Edited headless db mid ∧ next a mid = (.ok b, after) := by
  obtain ⟨a, mid, first, later⟩ := bind_eq_ok run
  exact ⟨a, mid, edits.edited first, later⟩

theorem populate_head (g : Genesis) (run : g.populate empty.registerAll = (.ok (), db)) :
    db.row? .head Chain.headId.number = some ⟨Chain.headId, 0, g.time⟩ := by
  obtain ⟨committee, one, first, run⟩ := bind_headless (create_edits (by decide) _) run
  obtain ⟨_, two, second, run⟩ := bind_headless (create_edits (by decide) _) run
  obtain ⟨supply, three, third, run⟩ := bind_headless (create_edits (by decide) _) run
  obtain ⟨_, four, fourth, run⟩ := bind_headless (create_edits (by decide) _) run
  obtain ⟨_, five, fifth, run⟩ :=
    bind_headless (foldlM_edits (endow_edits (by decide) (by decide) committee.id) g.accounts 0) run
  obtain ⟨_, six, sixth, run⟩ := bind_headless (modify_edits (by decide) _ _) run
  obtain ⟨_, seven, seventh, run⟩ := bind_headless (create_edits (by decide) _) run
  have edited := (((((first.trans second).trans third).trans fourth).trans fifth).trans sixth).trans seventh
  have sound := (edited.continues (foldl_register_sound Kind.all empty_sound).1).sound
    (foldl_register_sound Kind.all empty_sound).1
  have unused : seven.next .head = 0 := by rw [next_congr (edited.tables (by decide)), next_registerAll]
  obtain ⟨head, last, made, left⟩ := bind_eq_ok run
  cases left
  obtain ⟨rfl, puts, -⟩ := create_eq_ok sound made
  rw [puts.rows, unused]
  rfl

end Genesis

namespace Chain

variable {ω : Type} {c : Chain ω} {number : UInt32} {time : Timestamp} {block : OpenBlock}

-- No session is open, and the head is at a block.
structure Rests (number : UInt32) (time : Timestamp) (db : Database) : Prop where
  sound : db.Sound
  level : db.depth = 0
  head : db.row? .head headId.number = some ⟨headId, number, time⟩

-- A block is open on a database, follows its head, and is the head inside.
structure Working (base : Database) (block : OpenBlock) (c : Chain ω) : Prop where
  inside : InBlock base c
  opened : c.openBlock = some block
  follows : Follows base block.receipt.number block.receipt.time
  head : c.db.row? .head headId.number = some ⟨headId, block.receipt.number, block.receipt.time⟩

inductive Stands (base : Database) (c : Chain ω) : Prop where
  | between (closed : c.openBlock = none) (same : c.db = base)
  | within (block : OpenBlock) (working : Working base block c)

structure Kept (base : Database) (receipt : BlockReceipt) (c : Chain ω) : Prop where
  follows : Follows base receipt.number receipt.time
  closed : c.openBlock = none
  rests : Rests receipt.number receipt.time c.db

theorem Rests.begin (rests : Rests number time c.db) (closed : c.openBlock = none) (next : UInt32)
    (when : Timestamp) :
    (∃ after, beginBlock next when c = (.ok (), after) ∧ Working c.db ⟨.empty next when, 0⟩ after ∧
      after.halted = c.halted) ∨
    ∃ e, beginBlock next when c = (.error e, c) ∧
      ((∃ cause, e = .refused cause) ∨ ∃ reason, e = .halted reason ∧ c.halted = some reason) := by
  rcases begin_cases rests.sound closed rests.head next when with ⟨db, -, follows, advanced, run⟩ | ⟨e, -, run, cause⟩
  · obtain ⟨head, -, puts, -⟩ := modify_eq_ok (push_sound rests.sound) advanced
    refine .inl ⟨_, run, ⟨⟨rests.sound, puts.continues, rfl⟩, rfl, follows, ?_⟩, rfl⟩
    change db.row? .head headId.number = _
    rw [puts.rows, if_pos rfl]
    rfl
  · exact .inr ⟨e, run, cause⟩

theorem record_head (t : Transaction) (result : Except ChainError (List Outcome)) (block : OpenBlock) :
    (OpenBlock.record t result block).receipt.number = block.receipt.number ∧
      (OpenBlock.record t result block).receipt.time = block.receipt.time := by
  cases result with
  | ok results => exact ⟨rfl, rfl⟩
  | error e =>
    unfold OpenBlock.record
    dsimp only
    split <;> exact ⟨rfl, rfl⟩

theorem Working.push {action : Action ω α} (working : Working base block c) (t : Transaction)
    (outcomes : α → List Outcome) (opened : (action c).2.openBlock = c.openBlock)
    (continues : c.db.Continues (action c).2.db)
    (same : (action c).2.db.contents.get .head = c.db.contents.get .head) :
    ∃ later, Working base later (halting (recording t outcomes action) c).2 := by
  obtain ⟨number, time⟩ := record_head t ((action c).1.map outcomes) block
  have now : (halting (recording t outcomes action) c).2.openBlock =
      some (OpenBlock.record t ((action c).1.map outcomes) block) := by
    rw [openBlock_halting]
    change (action c).2.openBlock.map _ = _
    rw [opened, working.opened]
    rfl
  refine ⟨_, ⟨working.inside.sound, ?_, by rw [now]; rfl⟩, now, ?_, ?_⟩
  · rw [db_halting, db_recording]
    exact working.inside.continues.trans continues
  · rw [number, time]
    exact working.follows
  · rw [number, time, db_halting, db_recording, row?_eq_contents, same, ← row?_eq_contents]
    exact working.head

theorem Working.pushOperation (working : Working base block c) (op : Operation) :
    ∃ later, Working base later (Chain.pushOperation op c).2 := by
  unfold Chain.pushOperation
  split
  · exact ⟨block, working⟩
  · rename_i time _
    have spares := (op.perform_spares c.config time []).nested
    exact working.push _ _ rfl (spares.continuing c.db working.inside.current)
      (spares.contents c.db working.inside.current)

theorem Working.pushTransaction (working : Working base block c) (t : Transaction) :
    ∃ later, Working base later (Chain.pushTransaction t c).2 := by
  unfold Chain.pushTransaction
  split
  · exact ⟨block, working⟩
  · have here : (performTransaction t c).2.openBlock = c.openBlock ∧
        c.db.Continues (performTransaction t c).2.db ∧
        (performTransaction t c).2.db.contents.get .head = c.db.contents.get .head := by
      unfold performTransaction
      split
      · exact ⟨rfl, .refl working.inside.current, rfl⟩
      · rename_i time _
        have spares := t.perform_spares c.config time
        exact ⟨rfl, spares.continuing c.db working.inside.current, spares.contents c.db working.inside.current⟩
    exact working.push _ _ here.1 here.2.1 here.2.2

theorem Working.abort (working : Working base block c) :
    ∃ after, Chain.abort c = (.ok (), after) ∧ after.openBlock = none ∧ after.db = base ∧ after.halted = c.halted :=
  ⟨_, abort_inBlock working.inside, rfl, rfl, rfl⟩

-- A chain that has been stopped in the middle of a block does not keep it.
theorem Working.commit_stopped [Observer ω] (working : Working base block c) {reason : String}
    (stopped : c.halted = some reason) :
    ∃ after, Chain.commit c = (.error (.halted reason), after) ∧ after.openBlock = none ∧ after.db = base := by
  unfold Chain.commit ensureRunning
  rw [stopped]
  dsimp only
  rw [bind_apply, abandon_inBlock working.inside]
  exact ⟨_, rfl, rfl, rfl⟩

theorem Working.commit [Observer ω] (working : Working base block c) (level : base.depth = 0) :
    (∃ after, Chain.commit c = (.ok block.receipt, after) ∧ Kept base block.receipt after) ∨
      ∃ e after, Chain.commit c = (.error e, after) ∧ after.openBlock = none ∧ after.db = base := by
  cases running : c.halted with
  | some reason =>
    obtain ⟨after, run, closed, same⟩ := working.commit_stopped running
    exact .inr ⟨_, after, run, closed, same⟩
  | none =>
    rcases commit_cases working.inside running working.opened with
      ⟨db, observers, -, run, kept, answer⟩ | ⟨e, after, -, answer, same, closed, -⟩
    · refine .inl ⟨_, answer, working.follows, rfl, kept.sound working.inside.sound, kept.depth.trans level, ?_⟩
      change db.row? .head headId.number = _
      have contents := contents_commit c.db
      rw [run] at contents
      rw [row?_eq_contents, show db.contents = c.db.contents from contents, ← row?_eq_contents]
      exact working.head
    · exact .inr ⟨e, after, answer, closed, same⟩

theorem Working.pushAll (transactions : List Transaction) (working : Working base block c) :
    (∃ later after, Chain.pushAll transactions c = (.ok (), after) ∧ Working base later after) ∨
      ∃ e after, Chain.pushAll transactions c = (.error e, after) ∧ after.openBlock = none ∧ after.db = base := by
  induction transactions generalizing c block with
  | nil => exact .inl ⟨block, c, rfl, working⟩
  | cons t rest ih =>
    obtain ⟨later, kept⟩ := working.pushTransaction t
    rw [Chain.pushAll]
    cases made : Chain.pushTransaction t c with
    | mk result after =>
      rw [made] at kept
      cases result with
      | ok _ => exact ih kept
      | error e =>
        dsimp only
        split
        · obtain ⟨last, aborted, closed, same, -⟩ := kept.abort
          rw [bind_apply, aborted]
          exact .inr ⟨e, last, rfl, closed, same⟩
        · exact ih kept

theorem Rests.applyBlock [Observer ω] (rests : Rests number time c.db) (closed : c.openBlock = none) (b : Block) :
    (∃ receipt after, Chain.applyBlock b c = (.ok receipt, after) ∧ Kept c.db receipt after) ∨
      ∃ e after, Chain.applyBlock b c = (.error e, after) ∧ after.openBlock = none ∧ after.db = c.db := by
  unfold Chain.applyBlock
  rw [bind_apply]
  rcases rests.begin closed b.number b.time with ⟨mid, run, working, -⟩ | ⟨e, run, -⟩
  · rw [run]
    dsimp only
    rw [bind_apply]
    rcases working.pushAll b.transactions with ⟨later, full, run, working⟩ | ⟨e, after, run, ended⟩
    · rw [run]
      rcases working.commit rests.level with ⟨after, run, kept⟩ | ⟨e, after, run, ended⟩
      · exact .inl ⟨_, after, run, kept⟩
      · exact .inr ⟨e, after, run, ended⟩
    · rw [run]
      exact .inr ⟨e, after, rfl, ended⟩
  · rw [run]
    exact .inr ⟨e, c, rfl, closed, rfl⟩

-- A call keeps a block that follows the head, or leaves the chain where it stood.
inductive Turn (base : Database) (c : Chain ω) : Call → Prop where
  | begin (closed : c.openBlock = none) (same : c.db = base) (next : UInt32) (when : Timestamp) :
      Turn base c (.begin next when)
  | block (closed : c.openBlock = none) (same : c.db = base) (b : Block) : Turn base c (.block b)
  | operation {block : OpenBlock} (working : Working base block c) (op : Operation) : Turn base c (.operation op)
  | transaction {block : OpenBlock} (working : Working base block c) (t : Transaction) : Turn base c (.transaction t)
  | commit {block : OpenBlock} (working : Working base block c) : Turn base c .commit
  | abort {block : OpenBlock} (working : Working base block c) : Turn base c .abort
  | drop {block : OpenBlock} (working : Working base block c) : Turn base c .drop

theorem Stands.turn (stands : Stands base c) {call : Call} (inTurn : call.inTurn c) : Turn base c call := by
  cases stands with
  | between closed same =>
    cases call with
    | begin next when => exact .begin closed same next when
    | block b => exact .block closed same b
    | operation _ | transaction _ | commit | abort | drop =>
      change c.openBlock.isSome at inTurn
      rw [closed] at inTurn
      cases inTurn
  | within block working =>
    cases call with
    | begin _ _ | block _ =>
      change c.openBlock = none at inTurn
      rw [working.opened] at inTurn
      cases inTurn
    | operation op => exact .operation working op
    | transaction t => exact .transaction working t
    | commit => exact .commit working
    | abort => exact .abort working
    | drop => exact .drop working

theorem call_commit [Observer ω] {answer : Except ChainError BlockReceipt} {after : Chain ω}
    (run : Chain.commit c = (answer, after)) :
    Call.receipt? c .commit = answer.toOption ∧ (Call.run c .commit).2 = after := by
  rw [Call.receipt?, Call.run, done, run]
  exact ⟨rfl, rfl⟩

theorem call_block [Observer ω] {b : Block} {answer : Except ChainError BlockReceipt} {after : Chain ω}
    (run : applyBlock b c = (answer, after)) :
    Call.receipt? c (.block b) = answer.toOption ∧ (Call.run c (.block b)).2 = after := by
  rw [Call.receipt?, Call.run, done, run]
  exact ⟨rfl, rfl⟩

theorem Stands.call [Observer ω] (rests : Rests number time base) (stands : Stands base c) (call : Call)
    (inTurn : call.inTurn c) :
    (∃ receipt, call.receipt? c = some receipt ∧ Kept base receipt (call.run c).2) ∨
      call.receipt? c = none ∧ Stands base (call.run c).2 := by
  cases stands.turn inTurn with
  | begin closed same next when =>
    subst same
    refine .inr ⟨rfl, ?_⟩
    rcases rests.begin closed next when with ⟨after, run, working, -⟩ | ⟨e, run, -⟩
    · simp only [Call.run, run]
      exact .within _ working
    · simp only [Call.run, run]
      exact .between closed rfl
  | block closed same b =>
    subst same
    rcases rests.applyBlock closed b with ⟨receipt, after, run, kept⟩ | ⟨e, after, run, closed, same⟩ <;>
      obtain ⟨given, rfl⟩ := call_block run
    · exact .inl ⟨receipt, given, kept⟩
    · exact .inr ⟨given, .between closed same⟩
  | operation working op =>
    obtain ⟨later, working⟩ := working.pushOperation op
    exact .inr ⟨rfl, .within later working⟩
  | transaction working t =>
    obtain ⟨later, working⟩ := working.pushTransaction t
    exact .inr ⟨rfl, .within later working⟩
  | commit working =>
    rcases working.commit rests.level with ⟨after, run, kept⟩ | ⟨e, after, run, closed, same⟩ <;>
      obtain ⟨given, rfl⟩ := call_commit run
    · exact .inl ⟨_, given, kept⟩
    · exact .inr ⟨given, .between closed same⟩
  | abort working | drop working =>
    obtain ⟨after, run, closed, same, -⟩ := working.abort
    simp only [Call.run, run]
    exact .inr ⟨rfl, .between closed same⟩

end Chain

end RoomLedger
