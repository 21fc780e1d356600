import RoomLedger.Chain.Replay
import RoomLedger.Proofs.HaltLatch

namespace RoomLedger

namespace Transaction

theorem nested_answers {α : Type} {change : Change ChainError α} {a : α} {db after : Database}
    (run : nested change db = (.ok a, after)) : ∃ mid, change db.push = (.ok a, mid) := by
  unfold nested at run
  split at run
  · rename_i b mid made
    split at run <;> cases run
    exact ⟨mid, made⟩
  · split at run <;> cases run

theorem length_performAll {config : Config} {time : Timestamp} {ops : List Operation}
    {earlier results : List Outcome} {db after : Database}
    (run : ops.foldlM (performNext config time) earlier db = (.ok results, after)) :
    results.length = earlier.length + ops.length := by
  induction ops generalizing earlier db with
  | nil =>
    cases run
    rfl
  | cons op rest ih =>
    rw [List.foldlM_cons] at run
    obtain ⟨next, mid, one, run⟩ := Change.bind_eq_ok run
    obtain ⟨outcome, last, -, made⟩ := Change.bind_eq_ok one
    cases made
    rw [ih run, List.length_append, List.length_singleton, List.length_cons]
    omega

end Transaction

namespace Chain

variable {ω : Type} {c last : Chain ω} {number : UInt32} {time : Timestamp} {block : OpenBlock}

inductive Push where
  | operation (op : Operation)
  | transaction (t : Transaction)

namespace Push

-- An operation alone is entered as a transaction that nobody has signed.
def entry : Push → Transaction
  | operation op => .single op
  | transaction t => t

def run : Push → Action ω (List Outcome)
  | operation op, c => ((pushOperation op c).1.map fun outcome => [outcome], (pushOperation op c).2)
  | transaction t, c => pushTransaction t c

theorem latches (p : Push) (c : Chain ω) : Latches p.run c := by
  cases p with
  | operation op =>
    unfold Latches run
    rw [fatal?_map]
    exact latches_pushOperation op c
  | transaction t => exact latches_pushTransaction t c

theorem length_results {p : Push} {results : List Outcome} (answer : (p.run c).1 = .ok results) :
    results.length = p.entry.operations.length := by
  cases p with
  | operation op =>
    simp only [run] at answer
    cases pushed : (pushOperation op c).1 with
    | error e => rw [pushed] at answer; cases answer
    | ok outcome =>
      rw [pushed] at answer
      cases answer
      rfl
  | transaction t =>
    rcases pushTransaction_cases t c with ⟨e, refused, -⟩ | ⟨time, same, -⟩
    · rw [run, refused] at answer
      cases answer
    · rw [run, same] at answer
      obtain ⟨mid, performed⟩ := Transaction.nested_answers (Prod.ext answer rfl)
      rw [Transaction.length_performAll performed]
      exact Nat.zero_add _

theorem openBlock_recording {α : Type} (t : Transaction) (outcomes : α → List Outcome) (action : Action ω α)
    (kept : (action c).2.openBlock = some block) :
    (halting (recording t outcomes action) c).2.openBlock =
      some (OpenBlock.record t ((halting (recording t outcomes action) c).1.map outcomes) block) := by
  rw [openBlock_halting, answer_halting, answer_recording]
  change (action c).2.openBlock.map _ = _
  rw [kept]
  rfl

theorem openBlock_run (p : Push) (opened : c.openBlock = some block) (running : c.halted = none) :
    (p.run c).2.openBlock = some (OpenBlock.record p.entry (p.run c).1 block) := by
  have ready : c.ensureRunning = .ok () := by rw [ensureRunning, running]
  cases p with
  | operation op =>
    have timed : (do c.ensureRunning; c.blockTime) = .ok block.receipt.time := by
      rw [ready, blockTime, opened]
      rfl
    simp only [run, pushOperation, timed]
    exact openBlock_recording (.single op) (fun outcome => [outcome]) _ opened
  | transaction t =>
    have kept : (performTransaction t c).2.openBlock = some block := by
      rw [← opened]
      unfold performTransaction
      split <;> rfl
    simp only [run, pushTransaction, ready]
    rw [openBlock_recording t id _ kept, Except.map_id]
    rfl

end Push

abbrev Answered := Push × Except ChainError (List Outcome)

def session : List Push → Chain ω → List Answered × Chain ω
  | [], c => ([], c)
  | p :: rest, c =>
    let (answer, c) := p.run c
    let (answers, c) := session rest c
    ((p, answer) :: answers, c)

theorem session_cons (p : Push) (rest : List Push) (c : Chain ω) :
    session (p :: rest) c =
      ((p, (p.run c).1) :: (session rest (p.run c).2).1, (session rest (p.run c).2).2) := rfl

theorem session_stopped (pushes : List Push) {reason : String} (stopped : c.halted = some reason) :
    (session pushes c).2.halted = some reason := by
  induction pushes generalizing c with
  | nil => exact stopped
  | cons p rest ih =>
    rw [session_cons]
    refine ih ?_
    rw [p.latches c, stopped, Option.some_or]

theorem session_lengths (pushes : List Push) (c : Chain ω) {p : Push} {results : List Outcome}
    (answered : (p, .ok results) ∈ (session pushes c).1) : results.length = p.entry.operations.length := by
  induction pushes generalizing c with
  | nil => cases answered
  | cons q rest ih =>
    rw [session_cons] at answered
    rcases List.mem_cons.mp answered with same | later
    · obtain ⟨rfl, answer⟩ := Prod.mk.inj same
      exact Push.length_results answer.symm
    · exact ih _ later

def appliedEntry : Answered × Nat → Option TransactionReceipt
  | ((p, .ok results), n) => some ⟨n, p.entry, results⟩
  | ((_, .error _), _) => none

def rejectedEntry : Answered × Nat → Option Rejection
  | ((_, .ok _), _) => none
  | ((p, .error e), n) => some ⟨n, p.entry, e.message⟩

-- What has been entered is what was pushed and answered, one for one and in its order. Only what
-- stops the chain is left out, and then the block is not kept.
structure Entered (number : UInt32) (time : Timestamp) (given : List Answered) (block : OpenBlock) : Prop where
  number : block.receipt.number = number
  time : block.receipt.time = time
  pushed : block.pushed = given.length
  applied : block.receipt.applied = given.zipIdx.filterMap appliedEntry
  rejected : block.receipt.rejected = given.zipIdx.filterMap rejectedEntry

theorem filterMap_zipIdx_concat {α β : Type} (f : α × Nat → Option β) (list : List α) (a : α) :
    (list ++ [a]).zipIdx.filterMap f = list.zipIdx.filterMap f ++ (f (a, list.length)).toList := by
  rw [List.zipIdx_append, List.filterMap_append, Nat.zero_add]
  cases found : f (a, list.length) <;> simp [found]

theorem Entered.record {given : List Answered} (entered : Entered number time given block) (p : Push)
    {answer : Except ChainError (List Outcome)} (harmless : fatal? answer = none) :
    Entered number time (given ++ [(p, answer)]) (OpenBlock.record p.entry answer block) := by
  cases answer with
  | ok results =>
    refine ⟨entered.number, entered.time, by simp [OpenBlock.record, entered.pushed], ?_, ?_⟩
    · rw [filterMap_zipIdx_concat, ← entered.applied, ← entered.pushed]
      rfl
    · rw [filterMap_zipIdx_concat, ← entered.rejected]
      exact (List.append_nil _).symm
  | error e =>
    have counted : e.isFatal = false := by
      cases fatal : e.isFatal with
      | false => rfl
      | true => simp [fatal?, fatal] at harmless
    simp only [OpenBlock.record, counted]
    refine ⟨entered.number, entered.time, by simp [entered.pushed], ?_, ?_⟩
    · rw [filterMap_zipIdx_concat, ← entered.applied]
      exact (List.append_nil _).symm
    · rw [filterMap_zipIdx_concat, ← entered.rejected, ← entered.pushed]
      rfl

-- A session that has not stopped the chain has entered all that was pushed.
theorem session_entered (pushes : List Push) {past : List Answered} (opened : c.openBlock = some block)
    (running : c.halted = none) (entered : Entered number time past block)
    (still : (session pushes c).2.halted = none) : ∃ full, (session pushes c).2.openBlock = some full ∧
      Entered number time (past ++ (session pushes c).1) full := by
  induction pushes generalizing c block past with
  | nil => exact ⟨block, opened, by rwa [session, List.append_nil]⟩
  | cons p rest ih =>
    rw [session_cons] at still ⊢
    have latched := p.latches c
    unfold Latches at latched
    rw [running, Option.none_or] at latched
    cases fatal : fatal? (p.run c).1 with
    | some reason =>
      rw [session_stopped rest (latched.trans fatal)] at still
      cases still
    | none =>
      obtain ⟨full, opened, entered⟩ :=
        ih (p.openBlock_run opened running) (latched.trans fatal) (entered.record p fatal) still
      exact ⟨full, opened, by rwa [List.append_assoc] at entered⟩

structure Accounts (receipt : BlockReceipt) (given : List Answered) : Prop where
  applied_ascending : (receipt.applied.map TransactionReceipt.index).Pairwise (· < ·)
  rejected_ascending : (receipt.rejected.map Rejection.index).Pairwise (· < ·)
  disjoint : (receipt.applied.map TransactionReceipt.index).Disjoint (receipt.rejected.map Rejection.index)
  exhaustive : ∀ n, n ∈ receipt.applied.map TransactionReceipt.index ∨
    n ∈ receipt.rejected.map Rejection.index ↔ n < given.length
  -- The entries are what was answered, at the place where it was pushed.
  mem_applied_iff : ∀ entry, entry ∈ receipt.applied ↔ ∃ p, given[entry.index]? = some (p, .ok entry.results) ∧
    entry.transaction = p.entry
  mem_rejected_iff : ∀ entry, entry ∈ receipt.rejected ↔ ∃ p e, given[entry.index]? = some (p, .error e) ∧
    entry.transaction = p.entry ∧ entry.reason = e.message
  lengths : ∀ entry ∈ receipt.applied, entry.results.length = entry.transaction.operations.length

theorem mem_applied_iff {given : List Answered} {entry : TransactionReceipt} :
    entry ∈ given.zipIdx.filterMap appliedEntry ↔ ∃ p, given[entry.index]? = some (p, .ok entry.results) ∧
      entry.transaction = p.entry := by
  rw [List.mem_filterMap]
  constructor
  · rintro ⟨⟨⟨p, answer⟩, n⟩, placed, made⟩
    cases answer with
    | error e => cases made
    | ok results =>
      cases made
      exact ⟨p, List.mem_zipIdx_iff_getElem?.mp placed, rfl⟩
  · rintro ⟨p, placed, same⟩
    refine ⟨((p, .ok entry.results), entry.index), List.mem_zipIdx_iff_getElem?.mpr placed, ?_⟩
    rw [appliedEntry, ← same]

theorem mem_rejected_iff {given : List Answered} {entry : Rejection} :
    entry ∈ given.zipIdx.filterMap rejectedEntry ↔ ∃ p e, given[entry.index]? = some (p, .error e) ∧
      entry.transaction = p.entry ∧ entry.reason = e.message := by
  rw [List.mem_filterMap]
  constructor
  · rintro ⟨⟨⟨p, answer⟩, n⟩, placed, made⟩
    cases answer with
    | ok results => cases made
    | error e =>
      cases made
      exact ⟨p, e, List.mem_zipIdx_iff_getElem?.mp placed, rfl, rfl⟩
  · rintro ⟨p, e, placed, same, reason⟩
    refine ⟨((p, .error e), entry.index), List.mem_zipIdx_iff_getElem?.mpr placed, ?_⟩
    rw [rejectedEntry, ← same, ← reason]

-- Whatever is made of the members of a list, each at its place, comes in the order of the places.
theorem pairwise_places {α β : Type} {f : α × Nat → Option β} {place : β → Nat}
    (placed : ∀ a n b, f (a, n) = some b → place b = n) (list : List α) :
    ((list.zipIdx.filterMap f).map place).Pairwise (· < ·) := by
  have ascending : list.zipIdx.Pairwise fun x y => x.2 < y.2 := by
    rw [← List.pairwise_map, List.zipIdx_map_snd]
    exact List.pairwise_lt_range'
  refine List.pairwise_map.mpr (ascending.filterMap f fun x y before b made b' made' => ?_)
  rw [placed x.1 x.2 b made, placed y.1 y.2 b' made']
  exact before

theorem Entered.accounts {given : List Answered} (entered : Entered number time given block)
    (lengths : ∀ p results, (p, .ok results) ∈ given → results.length = p.entry.operations.length) :
    Accounts block.receipt given := by
  have applied_iff : ∀ entry, entry ∈ block.receipt.applied ↔ _ := fun entry => by
    rw [entered.applied, mem_applied_iff]
  have rejected_iff : ∀ entry, entry ∈ block.receipt.rejected ↔ _ := fun entry => by
    rw [entered.rejected, mem_rejected_iff]
  refine ⟨?_, ?_, ?_, ?_, applied_iff, rejected_iff, ?_⟩
  · rw [entered.applied]
    refine pairwise_places (fun a n entry made => ?_) given
    obtain ⟨p, answer⟩ := a
    cases answer <;> cases made
    rfl
  · rw [entered.rejected]
    refine pairwise_places (fun a n entry made => ?_) given
    obtain ⟨p, answer⟩ := a
    cases answer <;> cases made
    rfl
  -- There is one answer at each place, so no place is entered in both lists.
  · intro n applied rejected
    obtain ⟨entry, member, rfl⟩ := List.mem_map.mp applied
    obtain ⟨entry', member', same⟩ := List.mem_map.mp rejected
    obtain ⟨p, placed, -⟩ := (applied_iff entry).mp member
    obtain ⟨q, e, placed', -⟩ := (rejected_iff entry').mp member'
    rw [same, placed] at placed'
    cases placed'
  · intro n
    constructor
    · rintro (applied | rejected)
      · obtain ⟨entry, member, rfl⟩ := List.mem_map.mp applied
        obtain ⟨p, placed, -⟩ := (applied_iff entry).mp member
        exact (List.getElem?_eq_some_iff.mp placed).1
      · obtain ⟨entry, member, rfl⟩ := List.mem_map.mp rejected
        obtain ⟨p, e, placed, -⟩ := (rejected_iff entry).mp member
        exact (List.getElem?_eq_some_iff.mp placed).1
    · intro inside
      obtain ⟨⟨p, answer⟩, placed⟩ : ∃ a, given[n]? = some a := ⟨_, List.getElem?_eq_getElem inside⟩
      cases answer with
      | ok results =>
        have member := (applied_iff ⟨n, p.entry, results⟩).mpr ⟨p, placed, rfl⟩
        exact .inl (List.mem_map.mpr ⟨_, member, rfl⟩)
      | error e =>
        have member := (rejected_iff ⟨n, p.entry, e.message⟩).mpr ⟨p, e, placed, rfl, rfl⟩
        exact .inr (List.mem_map.mpr ⟨_, member, rfl⟩)
  · intro entry member
    obtain ⟨p, placed, same⟩ := (applied_iff entry).mp member
    rw [same]
    exact lengths p entry.results (List.mem_of_getElem? placed)

theorem Accounts.length {receipt : BlockReceipt} {given : List Answered} (accounts : Accounts receipt given) :
    receipt.applied.length + receipt.rejected.length = given.length := by
  have distinct : (receipt.applied.map TransactionReceipt.index ++ receipt.rejected.map Rejection.index).Nodup :=
    List.nodup_append'.mpr ⟨accounts.applied_ascending.imp Nat.ne_of_lt,
      accounts.rejected_ascending.imp Nat.ne_of_lt, accounts.disjoint⟩
  have places : (receipt.applied.map TransactionReceipt.index ++ receipt.rejected.map Rejection.index).Perm
      (List.range given.length) := by
    refine (List.perm_ext_iff_of_nodup distinct List.nodup_range).mpr fun n => ?_
    rw [List.mem_append, accounts.exhaustive, List.mem_range]
  have same := places.length_eq
  rwa [List.length_append, List.length_map, List.length_map, List.length_range] at same

theorem Accounts.operationCount {receipt : BlockReceipt} {given : List Answered}
    (accounts : Accounts receipt given) :
    receipt.operationCount = (receipt.applied.map fun entry => entry.transaction.operations.length).sum := by
  rw [BlockReceipt.operationCount, List.length_flatMap]
  exact congrArg List.sum (List.map_congr_left accounts.lengths)

theorem Action.bind_eq_ok {α β : Type} {action : Action ω α} {next : α → Action ω β} {b : β}
    (run : (action >>= next) c = (.ok b, last)) :
    ∃ a mid, action c = (.ok a, mid) ∧ next a mid = (.ok b, last) := by
  rw [bind_apply] at run
  cases made : action c with
  | mk result mid =>
    rw [made] at run
    cases result with
    | error e => cases run
    | ok a => exact ⟨a, mid, rfl, run⟩

theorem halting_eq_ok {α : Type} {action : Action ω α} {a : α} (run : halting action c = (.ok a, last)) :
    action c = (.ok a, last) := by
  unfold halting at run
  split at run
  · rename_i made
    rw [made, run]
  · cases run

theorem onDatabase_eq_ok {α : Type} {change : Change ChainError α} {a : α}
    (run : onDatabase change c = (.ok a, last)) : ∃ db, change c.db = (.ok a, db) := by
  unfold onDatabase at run
  cases made : change c.db with
  | mk result db =>
    rw [made] at run
    cases run
    exact ⟨db, rfl⟩

theorem onDatabase_throw {α : Type} {change : Change ChainError Unit} {e : ChainError} {a : α} :
    onDatabase (do change; throw e) c ≠ (.ok a, last) := by
  intro run
  obtain ⟨db, made⟩ := onDatabase_eq_ok run
  obtain ⟨_, _, -, thrown⟩ := Change.bind_eq_ok made
  cases thrown

theorem begin_eq_ok (begun : beginBlock number time c = (.ok (), last)) :
    last.openBlock = some ⟨.empty number time, 0⟩ ∧ last.halted = none := by
  unfold beginBlock at begun
  split at begun
  · cases begun
  · rename_i approved
    have running : c.halted = none := by
      obtain ⟨_, ready, -⟩ := exists_of_bind_eq_ok approved
      cases stopped : c.halted with
      | none => rfl
      | some reason =>
        rw [ensureRunning, stopped] at ready
        cases ready
    dsimp only at begun
    split at begun
    · cases begun
      exact ⟨rfl, running⟩
    · exact absurd (halting_eq_ok begun) onDatabase_throw

theorem conclude_eq_ok [Observer ω] {receipt : BlockReceipt} (concluded : conclude c = (.ok receipt, last)) :
    ∃ block, c.openBlock = some block ∧ block.receipt = receipt := by
  unfold conclude at concluded
  split at concluded
  · cases concluded
  · rename_i block opened
    refine ⟨block, opened, ?_⟩
    dsimp only at concluded
    split at concluded
    · cases concluded
    · split at concluded
      · obtain ⟨_, kept⟩ := onDatabase_eq_ok concluded
        obtain ⟨_, _, -, answer⟩ := Change.bind_eq_ok kept
        cases answer
        rfl
      · exact absurd concluded onDatabase_throw

theorem commit_eq_ok [Observer ω] {receipt : BlockReceipt} (committed : commit c = (.ok receipt, last)) :
    c.halted = none ∧ ∃ block, c.openBlock = some block ∧ block.receipt = receipt := by
  unfold commit at committed
  cases stopped : c.halted with
  | none =>
    rw [ensureRunning, stopped] at committed
    exact ⟨rfl, conclude_eq_ok (halting_eq_ok committed)⟩
  | some reason =>
    rw [ensureRunning, stopped] at committed
    dsimp only at committed
    rw [bind_apply] at committed
    split at committed <;> cases committed

theorem session_accounts [Observer ω] {receipt : BlockReceipt} {opened : Chain ω} {pushes : List Push}
    (begun : beginBlock number time c = (.ok (), opened))
    (committed : commit (session pushes opened).2 = (.ok receipt, last)) :
    receipt.number = number ∧ receipt.time = time ∧ Accounts receipt (session pushes opened).1 := by
  obtain ⟨block, running⟩ := begin_eq_ok begun
  obtain ⟨still, full, filled, same⟩ := commit_eq_ok committed
  have empty : Entered number time [] ⟨.empty number time, 0⟩ := ⟨rfl, rfl, rfl, rfl, rfl⟩
  obtain ⟨other, left, entered⟩ := session_entered pushes block running empty still
  rw [filled] at left
  cases left
  rw [List.nil_append] at entered
  subst same
  exact ⟨entered.number, entered.time, entered.accounts fun p results => session_lengths pushes opened⟩

theorem pushAll_session {ts : List Transaction} (pushed : pushAll ts c = (.ok (), last)) :
    (session (ts.map Push.transaction) c).2 = last := by
  induction ts generalizing c with
  | nil =>
    cases pushed
    rfl
  | cons t rest ih =>
    rw [pushAll] at pushed
    rw [List.map_cons, session_cons, Push.run]
    cases made : pushTransaction t c with
    | mk answer mid =>
      rw [made] at pushed
      cases answer with
      | ok _ => exact ih pushed
      | error e =>
        dsimp only at pushed
        split at pushed
        · rw [bind_apply] at pushed
          split at pushed <;> cases pushed
        · exact ih pushed

theorem session_pushes (pushes : List Push) (c : Chain ω) : (session pushes c).1.map Prod.fst = pushes := by
  induction pushes generalizing c with
  | nil => rfl
  | cons p rest ih => rw [session_cons, List.map_cons, ih]

theorem applyBlock_session [Observer ω] {b : Block} {receipt : BlockReceipt}
    (applied : applyBlock b c = (.ok receipt, last)) : ∃ opened, beginBlock b.number b.time c = (.ok (), opened) ∧
      commit (session (b.transactions.map Push.transaction) opened).2 = (.ok receipt, last) := by
  unfold applyBlock at applied
  obtain ⟨_, opened, begun, applied⟩ := Action.bind_eq_ok applied
  obtain ⟨_, full, pushed, committed⟩ := Action.bind_eq_ok applied
  exact ⟨opened, begun, by rwa [pushAll_session pushed]⟩

-- The transactions of a block have been pushed, with some answers, and the receipt accounts for them.
def Settles (b : Block) (receipt : BlockReceipt) : Prop :=
  ∃ given, given.map Prod.fst = b.transactions.map Push.transaction ∧ Accounts receipt given

theorem applyBlock_settles [Observer ω] {b : Block} {receipt : BlockReceipt}
    (applied : applyBlock b c = (.ok receipt, last)) : Settles b receipt := by
  obtain ⟨opened, begun, committed⟩ := applyBlock_session applied
  exact ⟨_, session_pushes _ opened, (session_accounts begun committed).2.2⟩

theorem applyAll_settles [Observer ω] {blocks : List Block} {receipts : List BlockReceipt}
    (applied : blocks.mapM applyBlock c = (.ok receipts, last)) : List.Forall₂ Settles blocks receipts := by
  induction blocks generalizing c receipts with
  | nil =>
    cases applied
    exact .nil
  | cons b rest ih =>
    rw [List.mapM_cons] at applied
    obtain ⟨receipt, mid, one, applied⟩ := Action.bind_eq_ok applied
    obtain ⟨others, _, applied, made⟩ := Action.bind_eq_ok applied
    cases made
    exact .cons (applyBlock_settles one) (ih applied)

theorem Settles.length {b : Block} {receipt : BlockReceipt} (settles : Settles b receipt) :
    receipt.applied.length + receipt.rejected.length = b.transactions.length := by
  obtain ⟨given, pushed, accounts⟩ := settles
  have same := congrArg List.length pushed
  rw [List.length_map, List.length_map] at same
  rw [accounts.length, same]

theorem length_settled {blocks : List Block} {receipts : List BlockReceipt}
    (settled : List.Forall₂ Settles blocks receipts) :
    (receipts.flatMap BlockReceipt.applied).length + (receipts.flatMap BlockReceipt.rejected).length =
      (blocks.map fun b => b.transactions.length).sum := by
  induction settled with
  | nil => rfl
  | cons one _ ih =>
    rw [List.flatMap_cons, List.flatMap_cons, List.length_append, List.length_append, List.map_cons,
      List.sum_cons, ← ih, ← one.length]
    omega

theorem operationCount_settled {blocks : List Block} {receipts : List BlockReceipt}
    (settled : List.Forall₂ Settles blocks receipts) : (receipts.map BlockReceipt.operationCount).sum =
      ((receipts.flatMap BlockReceipt.applied).map fun entry => entry.transaction.operations.length).sum := by
  induction settled with
  | nil => rfl
  | cons one _ ih =>
    obtain ⟨given, -, accounts⟩ := one
    rw [List.map_cons, List.sum_cons, ih, accounts.operationCount, List.flatMap_cons, List.map_append,
      List.sum_append]

theorem replay_totals [Observer ω] {blocks : List Block} {r : Replay} (replayed : replay blocks c = (.ok r, last)) :
    ∃ receipts, blocks.mapM applyBlock c = (.ok receipts, last) ∧ List.Forall₂ Settles blocks receipts ∧
      r.blocks = blocks.length ∧
      r.applied = (receipts.flatMap BlockReceipt.applied).length ∧
      r.applied + r.rejected = (blocks.map fun b => b.transactions.length).sum ∧
      r.operations =
        ((receipts.flatMap BlockReceipt.applied).map fun entry => entry.transaction.operations.length).sum := by
  unfold replay at replayed
  obtain ⟨receipts, mid, applied, replayed⟩ := Action.bind_eq_ok replayed
  obtain ⟨now, _, current, replayed⟩ := Action.bind_eq_ok replayed
  cases current
  obtain ⟨head, same, found, made⟩ := Action.bind_eq_ok replayed
  have kept : same = mid := by
    change ((liftM mid.head : Action ω Head) mid) = _ at found
    cases answered : mid.head with
    | error e => rw [answered] at found; cases found
    | ok h => rw [answered] at found; cases found; rfl
  subst kept
  cases made
  have settled := applyAll_settles applied
  refine ⟨receipts, applied, settled, settled.length_eq.symm, rfl, length_settled settled, ?_⟩
  exact operationCount_settled settled

-- Of any chain: a session that is committed, a block that is applied, and a log that is replayed.
theorem receipts_account_for_pushes [Observer ω] (c : Chain ω) :
    (∀ number time opened pushes receipt last, beginBlock number time c = (.ok (), opened) →
      commit (session pushes opened).2 = (.ok receipt, last) →
      receipt.number = number ∧ receipt.time = time ∧ Accounts receipt (session pushes opened).1) ∧
    (∀ b receipt last, applyBlock b c = (.ok receipt, last) →
      ∃ opened, beginBlock b.number b.time c = (.ok (), opened) ∧
        commit (session (b.transactions.map Push.transaction) opened).2 = (.ok receipt, last) ∧
        Accounts receipt (session (b.transactions.map Push.transaction) opened).1) ∧
    (∀ blocks r last, replay blocks c = (.ok r, last) →
      ∃ receipts, blocks.mapM applyBlock c = (.ok receipts, last) ∧ List.Forall₂ Settles blocks receipts ∧
        r.blocks = blocks.length ∧
        r.applied = (receipts.flatMap BlockReceipt.applied).length ∧
        r.applied + r.rejected = (blocks.map fun b => b.transactions.length).sum ∧
        r.operations =
          ((receipts.flatMap BlockReceipt.applied).map fun entry => entry.transaction.operations.length).sum) := by
  refine ⟨fun _ _ _ _ _ _ begun committed => session_accounts begun committed, ?_,
    fun _ _ _ replayed => replay_totals replayed⟩
  intro b receipt last applied
  obtain ⟨opened, begun, committed⟩ := applyBlock_session applied
  exact ⟨opened, begun, committed, (session_accounts begun committed).2.2⟩

-- A room is opened twice, and the second time is refused.
def denPushes : List Push := [.operation openDen, .transaction (.single openDen)]

def denBlock : Block := ⟨1, ⟨7⟩, [.single openDen, .single openDen]⟩

theorem receipts_account_for_pushes_den :
    (∃ receipt last, beginBlock 1 ⟨7⟩ founded = (.ok (), begun) ∧
      commit (session denPushes begun).2 = (.ok receipt, last) ∧ Accounts receipt (session denPushes begun).1 ∧
      receipt.applied.map TransactionReceipt.index = [0] ∧ receipt.rejected.map Rejection.index = [1]) ∧
    (∃ receipt last, ∃ opened : Chain Watcher, applyBlock denBlock founded = (.ok receipt, last) ∧
      Accounts receipt (session (denBlock.transactions.map Push.transaction) opened).1) ∧
    ∃ r last, replay [denBlock] founded = (.ok r, last) ∧ r.blocks = 1 ∧ r.applied + r.rejected = 2 := by
  obtain ⟨sessions, blocks, logs⟩ := receipts_account_for_pushes founded
  refine ⟨?_, ?_, ?_⟩
  · have begins : beginBlock 1 ⟨7⟩ founded = (.ok (), begun) := Prod.ext (by rfl) rfl
    have kept : (commit (session denPushes begun).2).1.toOption.map (fun r =>
        (r.applied.map TransactionReceipt.index, r.rejected.map Rejection.index)) = some ([0], [1]) := by
      decide +kernel
    cases committed : commit (session denPushes begun).2 with
    | mk result last =>
      rw [committed] at kept
      cases result with
      | error e => cases kept
      | ok receipt =>
        obtain ⟨first, second⟩ := Prod.mk.inj (Option.some.inj kept)
        exact ⟨receipt, last, begins, rfl, (sessions _ _ _ _ _ _ begins committed).2.2, first, second⟩
  · have taken : (applyBlock denBlock founded).1.toOption.isSome := by decide +kernel
    cases applied : applyBlock denBlock founded with
    | mk result last =>
      rw [applied] at taken
      cases result with
      | error e => cases taken
      | ok receipt =>
        obtain ⟨opened, -, -, accounts⟩ := blocks _ _ _ applied
        exact ⟨receipt, last, opened, rfl, accounts⟩
  · have taken : (replay [denBlock] founded).1.toOption.isSome := by decide +kernel
    cases replayed : replay [denBlock] founded with
    | mk result last =>
      rw [replayed] at taken
      cases result with
      | error e => cases taken
      | ok r =>
        obtain ⟨_, -, -, counted, -, total, -⟩ := logs _ _ _ replayed
        exact ⟨r, last, rfl, counted, total⟩

end Chain

end RoomLedger
