import RoomLedger.Chain.Replay
import RoomLedger.Proofs.BlockHistory
import RoomLedger.Proofs.DecidedChanges
import RoomLedger.Proofs.LedgerIntegrity

namespace RoomLedger

open Database Change

-- How a log is replayed: signers are not asked for, and it does not matter what is done about refusals.
def Config.replaying (config : Config) (atomicity : Atomicity) : Config :=
  { config with enforceAuthorities := false, atomicity := atomicity }

namespace BlockReceipt

def block (r : BlockReceipt) : Block := ⟨r.number, r.time, r.applied.map TransactionReceipt.transaction⟩

-- The receipt that a replay gives. As nothing is rejected, there is no gap between the positions.
def cleared (r : BlockReceipt) : BlockReceipt :=
  ⟨r.number, r.time, r.applied.mapIdx fun i a => { a with index := i }, []⟩

theorem length_applied_cleared (r : BlockReceipt) : r.cleared.applied.length = r.applied.length :=
  List.length_mapIdx

theorem operationCount_cleared (r : BlockReceipt) : r.cleared.operationCount = r.operationCount := by
  have results : r.cleared.applied.map TransactionReceipt.results = r.applied.map TransactionReceipt.results :=
    List.ext_getElem (by simp [cleared]) (by simp [cleared])
  unfold operationCount
  rw [List.flatMap_def, List.flatMap_def, results]

end BlockReceipt

variable {total : Int} {config : Config} {atomicity : Atomicity} {db after : Database} {time : Timestamp}

namespace Operation

theorem perform_replaying (op : Operation) (config : Config) (atomicity : Atomicity) (time : Timestamp)
    (results : List Outcome) :
    op.perform (config.replaying atomicity) time results = op.perform config time results := by
  funext db
  unfold perform
  have alike : ∀ fee, Context.Alike ⟨db, config, time, fee, results⟩
      ⟨db, config.replaying atomicity, time, fee, results⟩ :=
    fun _ => ⟨rfl, rfl, rfl, rfl, rfl⟩
  simp only [approve_alike (alike _)]

theorem validate_of_perform {op : Operation} {results : List Outcome} {outcome : Outcome}
    (run : nested (op.perform config time results) db = (.ok outcome, after)) : op.validate = .ok () := by
  cases validated : op.validate with
  | ok _ => rfl
  | error defect =>
    unfold nested perform at run
    rw [validated] at run
    dsimp only at run
    split at run <;> cases run

end Operation

namespace Transaction

theorem perform_replaying (t : Transaction) (config : Config) (atomicity : Atomicity) (time : Timestamp) :
    t.perform (config.replaying atomicity) time = t.perform config time := by
  have same : performNext (config.replaying atomicity) time = performNext config time := by
    funext results op
    unfold performNext
    rw [op.perform_replaying]
  rw [perform, perform, same]

theorem approve_replaying {t : Transaction} (valid : t.validate = .ok ()) :
    t.approve (config.replaying atomicity) = .ok () := by
  unfold approve
  rw [valid]
  rfl

theorem validate_of_approve {t : Transaction} (approved : t.approve config = .ok ()) : t.validate = .ok () := by
  obtain ⟨_, valid, -⟩ := exists_of_bind_eq_ok approved
  exact of_mapError_eq_ok valid

theorem validate_single {op : Operation} (valid : op.validate = .ok ()) : (single op).validate = .ok () := by
  change (op.validate >>= fun _ => pure ()) = .ok ()
  rw [valid]
  rfl

theorem perform_single {op : Operation} {outcome : Outcome} (sound : db.Sound)
    (run : nested (op.perform config time []) db = (.ok outcome, after)) :
    ∃ last, (single op).perform config time db = (.ok [outcome], last) ∧ last.contents = after.contents := by
  have decided := nested_decided (op.perform_decided config time [])
  obtain ⟨mid, inner, same⟩ := decided.of_eq sound (push_sound sound) (contents_push db) run
  have made : (single op).operations.foldlM (performNext config time) [] db.push = (.ok [outcome], mid) := by
    change ([op].foldlM (performNext config time) []) db.push = _
    rw [List.foldlM_cons, bind_apply, performNext, bind_apply, inner]
    rfl
  rcases nested_cases ((single op).operations_continuing config time) sound with
    ⟨results, last, kept, ran, -, committed, whole, -⟩ | ⟨e, last, ran, -⟩
  · rw [made] at ran
    cases ran
    refine ⟨kept, whole, ?_⟩
    rw [← same, ← contents_commit mid, committed]
  · rw [made] at ran
    cases ran

end Transaction

namespace Chain

variable {ω : Type} {fresh again mid : Chain ω} {history : List BlockReceipt} {block : OpenBlock}

theorem pushAll_append {ts us : List Transaction} {c : Chain ω} (run : pushAll ts c = (.ok (), mid)) :
    pushAll (ts ++ us) c = pushAll us mid := by
  induction ts generalizing c with
  | nil =>
    cases run
    rfl
  | cons t rest ih =>
    rw [pushAll] at run
    rw [List.cons_append, pushAll]
    cases made : pushTransaction t c with
    | mk result next =>
      rw [made] at run
      cases result with
      | ok _ => exact ih run
      | error e =>
        dsimp only at run ⊢
        split at run
        · rw [bind_apply] at run
          split at run <;> cases run
        · rename_i goes
          rw [if_neg goes]
          exact ih run

def fill (b : Block) : Action ω Unit := do
  beginBlock b.number b.time
  pushAll b.transactions

theorem applyBlock_of_fill [Observer ω] {b : Block} {c : Chain ω} (run : fill b c = (.ok (), mid)) :
    applyBlock b c = commit mid := by
  unfold fill at run
  unfold applyBlock
  rw [bind_apply] at run ⊢
  cases made : beginBlock b.number b.time c with
  | mk result next =>
    rw [made] at run
    cases result with
    | error e => cases run
    | ok _ =>
      dsimp only at run ⊢
      rw [bind_apply, run]

theorem fill_append {b : Block} {ts : List Transaction} {c : Chain ω} (run : fill b c = (.ok (), mid)) :
    fill { b with transactions := b.transactions ++ ts } c = pushAll ts mid := by
  unfold fill at run ⊢
  rw [bind_apply] at run ⊢
  dsimp only
  cases made : beginBlock b.number b.time c with
  | mk result next =>
    rw [made] at run
    cases result with
    | error e => cases run
    | ok _ => exact pushAll_append run

theorem publish_unobserved [Observer ω] (db : Database) (notices : List Notice) :
    Observer.publish db notices ([] : List ω) = (.ok (), []) := by
  induction notices with
  | nil => rfl
  | cons notice later ih => exact ih

-- A chain of which nothing is known that could keep it from replaying.
structure Calm (config : Config) (c : Chain ω) : Prop where
  config : c.config = config
  observers : c.observers = []
  running : c.halted = none

structure Replays [Observer ω] (total : Int) (config : Config) (fresh : Chain ω) (history : List BlockReceipt)
    (again : Chain ω) : Prop where
  run : (history.map BlockReceipt.block).mapM applyBlock fresh = (.ok (history.map BlockReceipt.cleared), again)
  idle : again.Idle total
  calm : again.Calm config

-- A block of which some transactions have been pushed again, and no others.
structure Resumes (total : Int) (config : Config) (again : Chain ω) (block : OpenBlock) (mid : Chain ω) : Prop where
  run : fill block.receipt.block again = (.ok (), mid)
  busy : mid.Busy total again.db
  calm : mid.Calm config
  opened : mid.openBlock = some ⟨block.receipt.cleared, block.receipt.applied.length⟩

theorem Replays.begin [Observer ω] (replays : Replays total config fresh history again) {number : UInt32}
    {time : Timestamp} (follows : Follows again.db number time) :
    ∃ mid, Resumes total config again ⟨.empty number time, 0⟩ mid ∧
      advance number time again.db.push = (.ok (), mid.db) := by
  have busy := replays.idle.begin number time
  rcases replays.idle.begin_cases number time with ⟨db, -, -, advanced, run⟩ | ⟨e, stuck, -⟩
  · rcases busy with ⟨_, same, busy, -⟩ | ⟨e, same, -⟩
    · rw [run] at same
      cases same
      refine ⟨_, ⟨?_, busy, ⟨replays.calm.config, replays.calm.observers, replays.calm.running⟩, rfl⟩, advanced⟩
      change (beginBlock number time >>= fun _ => pushAll []) again = _
      rw [bind_apply, run]
      rfl
    · rw [run] at same
      cases same
  · exact absurd ⟨replays.calm.running, follows⟩ stuck

theorem Resumes.push (resumes : Resumes total config again block mid) {t : Transaction} {results : List Outcome}
    (approved : t.approve config = .ok ())
    (run : t.perform config block.receipt.time mid.db = (.ok results, db)) :
    ∃ next, Resumes total config again (OpenBlock.record t (.ok results) block) next ∧ next.db = db := by
  rw [← resumes.calm.config] at approved run
  have busy := (resumes.busy.pushTransaction t).2
  rcases resumes.busy.pushTransaction_cases resumes.opened t with
    ⟨_, _, -, run', answer⟩ | ⟨_, refused, -⟩
  · change t.perform mid.config block.receipt.time mid.db = _ at run'
    rw [run] at run'
    cases run'
    rw [answer] at busy
    refine ⟨_, ⟨?_, busy, ⟨resumes.calm.config, resumes.calm.observers, resumes.calm.running⟩, ?_⟩, rfl⟩
    · have listed : (OpenBlock.record t (.ok results) block).receipt.block =
          { block.receipt.block with transactions := block.receipt.block.transactions ++ [t] } := by
        simp [OpenBlock.record, BlockReceipt.block]
      rw [listed, fill_append resumes.run, pushAll, answer]
      rfl
    · simp [OpenBlock.record, BlockReceipt.cleared, writing, List.mapIdx_append]
  · have impossible := refused approved
    change t.perform mid.config block.receipt.time mid.db = _ at impossible
    rw [run] at impossible
    cases impossible

theorem Resumes.skip (resumes : Resumes total config again block mid) (t : Transaction) (cause : Refusal) :
    Resumes total config again (OpenBlock.record t (.error (.refused cause)) block) mid :=
  ⟨resumes.run, resumes.busy, resumes.calm, resumes.opened⟩

theorem Replays.commit [Observer ω] (replays : Replays total config fresh history again)
    (resumes : Resumes total config again block mid) :
    ∃ next, Replays total config fresh (history ++ [block.receipt]) next ∧ next.db.contents = mid.db.contents := by
  rcases commit_cases resumes.busy.inside resumes.busy.running resumes.opened with
    ⟨db, observers, told, run, kept, answer⟩ | ⟨e, _, told, -⟩
  · rw [resumes.calm.observers, publish_unobserved] at told
    cases told
    have applied := (applyBlock_of_fill resumes.run).trans answer
    have sound := kept.sound resumes.busy.inside.sound
    refine ⟨{ mid with db := db, openBlock := none, observers := [] }, ⟨?_, ?_, ?_⟩, ?_⟩
    · rw [List.map_append, List.mapM_append, bind_apply, replays.run]
      simp only [List.map_cons, List.map_nil, List.mapM_cons, List.mapM_nil, bind_apply, applied, List.map_append]
      rfl
    · exact ⟨rfl, kept.depth.trans resumes.busy.level, resumes.busy.standing.commit run sound⟩
    · exact ⟨resumes.calm.config, rfl, resumes.calm.running⟩
    · rw [← contents_commit mid.db, run]
  · rw [resumes.calm.observers, publish_unobserved] at told
    cases told

theorem follows_congr {db other : Database} (same : other.contents = db.contents) {number : UInt32}
    {time : Timestamp} (follows : Follows db number time) : Follows other number time := by
  obtain ⟨head, stored, next⟩ := follows
  refine ⟨head, ?_, next⟩
  rw [row?_eq_contents, same, ← row?_eq_contents, stored]

-- The blocks that have been kept replay to what they have left, and so does the open one.
def replayed [Observer ω] (total : Int) (config : Config) (fresh : Chain ω) : Chronicle where
  settled history db := ∃ again, Replays total config fresh history again ∧ again.db.contents = db.contents
  pending history block db := ∃ again mid, Replays total config fresh history again ∧
    Resumes total config again block mid ∧ mid.db.contents = db.contents

theorem replayed_carriedOn [Observer ω] (total : Int) (config : Config) (atomicity : Atomicity) (fresh : Chain ω) :
    (replayed total (config.replaying atomicity) fresh).CarriedOn total config := by
  -- What has been entered is done again on tables that hold the same, and what was refused is left
  -- out.
  refine ⟨?_, ?_, ?_, ?_, ?_⟩
  · rintro history db after number time standing - ⟨again, replays, same⟩ follows advanced
    obtain ⟨mid, resumes, advanced'⟩ := replays.begin (follows_congr same follows)
    have pushed : again.db.push.contents = db.push.contents := by rw [contents_push, contents_push, same]
    obtain ⟨last, run, left⟩ := (modify_uniform _ _).decided.of_eq standing.push.grounded.sound
      replays.idle.standing.push.grounded.sound pushed advanced
    rw [advance, run] at advanced'
    cases advanced'
    exact ⟨again, mid, replays, resumes, left⟩
  · rintro history block db after op outcome standing ⟨again, mid, replays, resumes, same⟩ run
    have sound := resumes.busy.standing.grounded.sound
    obtain ⟨last, alone, left⟩ := (nested_decided (op.perform_decided config block.receipt.time [])).of_eq
      standing.grounded.sound sound same run
    obtain ⟨final, single, left'⟩ := Transaction.perform_single sound alone
    rw [← Transaction.perform_replaying _ config atomicity] at single
    obtain ⟨next, resumes, rfl⟩ := resumes.push
      (Transaction.approve_replaying (Transaction.validate_single (Operation.validate_of_perform run))) single
    exact ⟨again, next, replays, resumes, left'.trans left⟩
  · rintro history block db after t results standing ⟨again, mid, replays, resumes, same⟩ approved run
    obtain ⟨last, alike, left⟩ := (t.perform_decided config block.receipt.time).of_eq standing.grounded.sound
      resumes.busy.standing.grounded.sound same run
    rw [← Transaction.perform_replaying _ config atomicity] at alike
    obtain ⟨next, resumes, rfl⟩ := resumes.push
      (Transaction.approve_replaying (Transaction.validate_of_approve approved)) alike
    exact ⟨again, next, replays, resumes, left⟩
  · rintro history block db t cause ⟨again, mid, replays, resumes, same⟩
    exact ⟨again, mid, replays, resumes.skip t cause, same⟩
  · rintro history block db after - ⟨again, mid, replays, resumes, same⟩ run -
    obtain ⟨next, replays, left⟩ := replays.commit resumes
    refine ⟨next, replays, ?_⟩
    rw [left, same, ← contents_commit db, run]

theorem Replays.replay [Observer ω] (replays : Replays total config fresh history again) : ∃ head,
    Chain.replay (history.map BlockReceipt.block) fresh =
      (.ok ⟨history.length, (history.flatMap BlockReceipt.applied).length, 0,
        (history.map BlockReceipt.operationCount).foldr (· + ·) 0, head, again.db.digest⟩, again) := by
  obtain ⟨head, stored⟩ := replays.idle.standing.head
  have found := head_eq_ok stored
  refine ⟨head.number, ?_⟩
  have applied : ((history.map BlockReceipt.cleared).flatMap BlockReceipt.applied).length =
      (history.flatMap BlockReceipt.applied).length := by
    simp [List.length_flatMap, List.map_map, Function.comp_def, BlockReceipt.length_applied_cleared]
  have rejected : ((history.map BlockReceipt.cleared).flatMap BlockReceipt.rejected).length = 0 := by
    simp [List.length_flatMap, BlockReceipt.cleared, Function.comp_def]
  have operations : (history.map BlockReceipt.cleared).map BlockReceipt.operationCount =
      history.map BlockReceipt.operationCount := by
    rw [List.map_map]
    exact List.map_congr_left fun r _ => r.operationCount_cleared
  have summed : Chain.replay (history.map BlockReceipt.block) fresh =
      (.ok ⟨(history.map BlockReceipt.cleared).length,
        ((history.map BlockReceipt.cleared).flatMap BlockReceipt.applied).length,
        ((history.map BlockReceipt.cleared).flatMap BlockReceipt.rejected).length,
        ((history.map BlockReceipt.cleared).map BlockReceipt.operationCount).foldr (· + ·) 0,
        head.number, again.db.digest⟩, again) := by
    unfold Chain.replay
    rw [bind_apply, replays.run]
    dsimp only
    rw [bind_apply]
    change ((liftM again.head : Action ω Head) >>= _) again = _
    rw [found]
    rfl
  rw [summed, applied, rejected, operations, List.length_map]

-- The log of a history leads from a new chain to one in the state of `last`, and nothing is rejected.
structure Reproduces [Observer ω] {ω' : Type} (config : Config) (genesis : Genesis) (history : List BlockReceipt)
    (last : Chain ω') (fresh again : Chain ω) : Prop where
  started : start config genesis [] = .ok fresh
  receipts : (history.map BlockReceipt.block).mapM applyBlock fresh = (.ok (history.map BlockReceipt.cleared), again)
  summary : ∃ head, replay (history.map BlockReceipt.block) fresh =
    (.ok ⟨history.length, (history.flatMap BlockReceipt.applied).length, 0,
      (history.map BlockReceipt.operationCount).foldr (· + ·) 0, head, again.db.digest⟩, again)
  state : last.openBlock = none → again.db.serialize = last.db.serialize

variable {ω' : Type} {first last : Chain ω'} {genesis : Genesis} {observers : List ω'}

theorem replay_reproduces_history [Observer ω] [Observer ω'] (atomicity : Atomicity)
    (started : start config genesis observers = .ok first) (commits : Commits first history last) :
    ∃ fresh again : Chain ω, Reproduces (config.replaying atomicity) genesis history last fresh again := by
  obtain ⟨standing, level, closed, -⟩ := start_eq_ok started
  obtain ⟨applied, same⟩ := start_applies started
  let fresh : Chain ω := ⟨first.db, config.replaying atomicity, [], none, none⟩
  have restarted : start (config.replaying atomicity) genesis [] = .ok fresh := by
    unfold start
    rw [applied]
  have idle : fresh.Idle genesis.granted := ⟨rfl, level, standing⟩
  have replays : Replays genesis.granted (config.replaying atomicity) fresh [] fresh := ⟨rfl, idle, rfl, rfl, rfl⟩
  have truth := Chronicle.IsTrue.commits (replayed_carriedOn genesis.granted config atomicity fresh)
    (.idle ⟨⟨closed, level, standing⟩, congrArg Chain.config same, fresh, replays, rfl⟩) commits
  obtain ⟨again, replays, kept⟩ : ∃ again, Replays genesis.granted (config.replaying atomicity) fresh history again ∧
      (last.openBlock = none → again.db.contents = last.db.contents) := by
    cases truth with
    | idle idle =>
      obtain ⟨again, replays, same⟩ := idle.settled
      exact ⟨again, replays, fun _ => same⟩
    | busy busy =>
      obtain ⟨again, replays, -⟩ := busy.settled
      obtain ⟨block, opened, -⟩ := busy.pending
      refine ⟨again, replays, fun closed => ?_⟩
      rw [opened] at closed
      cases closed
  refine ⟨fresh, again, restarted, replays.run, replays.replay, fun closed => ?_⟩
  rw [serialize_eq_contents, serialize_eq_contents, kept closed]

-- The room is opened twice in a block that is kept, and the second time is refused.
def denRefused : Chain Watcher := (pushOperation openDen housed).2

def denKept : Chain Watcher := (commit denRefused).2

def denReceipt : BlockReceipt :=
  ⟨1, ⟨7⟩, [⟨0, .single openDen, [.object (⟨0⟩ : RoomId).id]⟩],
    [⟨1, .single openDen, (ChainError.refused (.duplicateRoomName ⟨2⟩ "den")).message⟩]⟩

theorem denKept_commits : Commits founded [denReceipt] denKept := by
  have kept : (commit denRefused).1 = .ok denReceipt := by decide +kernel
  have commits : Commits founded ([] ++ [] ++ [] ++ [] ++ (Call.receipt? denRefused .commit).toList) denKept :=
    .call (.call (.call (.call .nil (.begin 1 ⟨7⟩) (by rfl)) (.operation openDen) (by rfl)) (.operation openDen)
      (by rfl)) .commit (by rfl)
  rwa [Call.receipt?, kept] at commits

theorem replay_reproduces_history_den :
    start .permissive funded [Watcher.idle] = .ok founded ∧ Commits founded [denReceipt] denKept ∧
    denKept.openBlock.isNone ∧ ∃ fresh again : Chain Watcher,
      Reproduces (Config.permissive.replaying .wholeBlock) funded [denReceipt] denKept fresh again :=
  ⟨founded_started, denKept_commits, by decide +kernel,
    replay_reproduces_history .wholeBlock founded_started denKept_commits⟩

end Chain

end RoomLedger
