import RoomLedger.Proofs.SessionStates

namespace RoomLedger.Chain

open Database

variable {ω α β : Type} {base : Database} {c : Chain ω} {number : UInt32} {time : Timestamp}

def fatal? : Except ChainError α → Option String
  | .error e => if e.isFatal then some e.message else none
  | .ok _ => none

theorem fatal?_map (f : α → β) (answer : Except ChainError α) : fatal? (answer.map f) = fatal? answer := by
  cases answer <;> rfl

-- A chain that runs is stopped by a fatal answer, and one that has been stopped stays so, for the same reason.
def Latches (action : Action ω α) (c : Chain ω) : Prop :=
  (action c).2.halted = c.halted.or (fatal? (action c).1)

theorem latches_stopped {action : Action ω α} (same : (action c).2.halted = c.halted) {reason : String}
    (stopped : c.halted = some reason) : Latches action c := by
  rw [Latches, same, stopped, Option.some_or]

theorem latches_harmless {action : Action ω α} (same : (action c).2.halted = c.halted)
    (harmless : fatal? (action c).1 = none) : Latches action c := by
  rw [Latches, same, harmless, Option.or_none]

theorem halted_halt (e : ChainError) (c : Chain ω) :
    (c.halt e).halted = c.halted.or (fatal? (.error e : Except ChainError α)) := by
  unfold halt fatal?
  cases stopped : c.halted <;> cases fatal : e.isFatal <;> simp [stopped, fatal]

theorem latches_halting {action : Action ω α} (same : (action c).2.halted = c.halted) :
    Latches (halting action) c := by
  unfold Latches halting
  cases made : action c with
  | mk result after =>
    rw [made] at same
    cases result with
    | ok a => exact same.trans (Option.or_none).symm
    | error e =>
      change (after.halt e).halted = _
      rw [halted_halt (α := α), same]

theorem Latches.bind {action : Action ω α} {next : α → Action ω β} (latches : Latches action c)
    (later : ∀ a after, action c = (.ok a, after) → Latches (next a) after) : Latches (action >>= next) c := by
  unfold Latches at *
  rw [bind_apply]
  cases made : action c with
  | mk result after =>
    rw [made] at latches
    cases result with
    | error e => exact latches
    | ok a =>
      have same : after.halted = c.halted := latches.trans (Option.or_none)
      dsimp only
      rw [later a after made, same]

theorem ensureRunning_error {e : ChainError} (refused : c.ensureRunning = .error e) :
    ∃ reason, e = .halted reason ∧ c.halted = some reason := by
  unfold ensureRunning at refused
  split at refused
  · rename_i reason stopped
    cases refused
    exact ⟨reason, rfl, stopped⟩
  · cases refused

theorem latches_pushOperation (op : Operation) (c : Chain ω) : Latches (pushOperation op) c := by
  unfold Latches pushOperation
  cases running : c.ensureRunning with
  | error e =>
    obtain ⟨reason, -, stopped⟩ := ensureRunning_error running
    change c.halted = _
    rw [stopped, Option.some_or]
  | ok _ =>
    unfold blockTime
    cases c.openBlock with
    | none => exact (Option.or_none).symm
    | some block => exact latches_halting rfl

theorem halted_performTransaction (t : Transaction) (c : Chain ω) :
    (performTransaction t c).2.halted = c.halted := by
  unfold performTransaction
  split <;> rfl

theorem latches_pushTransaction (t : Transaction) (c : Chain ω) : Latches (pushTransaction t) c := by
  unfold Latches pushTransaction
  cases running : c.ensureRunning with
  | error e =>
    obtain ⟨reason, -, stopped⟩ := ensureRunning_error running
    change c.halted = _
    rw [stopped, Option.some_or]
  | ok _ => exact latches_halting (halted_performTransaction t c)

theorem halted_abandon (c : Chain ω) : (abandon c).2.halted = c.halted := by
  unfold abandon
  split <;> rfl

theorem latches_abort (c : Chain ω) : Latches abort c := latches_halting (halted_abandon c)

theorem halted_conclude [Observer ω] (c : Chain ω) : (conclude c).2.halted = c.halted := by
  unfold conclude announce
  cases c.openBlock with
  | none => rfl
  | some block =>
    dsimp only
    split
    · rfl
    · cases Observer.publish c.db (c.db.netChanges.notices block.receipt) c.observers with
      | mk result observers => cases result <;> rfl

theorem latches_commit [Observer ω] (c : Chain ω) : Latches commit c := by
  cases running : c.ensureRunning with
  | error e =>
    obtain ⟨reason, -, stopped⟩ := ensureRunning_error running
    refine latches_stopped ?_ stopped
    have same := halted_abandon c
    unfold commit
    rw [running]
    dsimp only
    rw [bind_apply]
    cases made : abandon c with
    | mk result after =>
      rw [made] at same
      cases result <;> exact same
  | ok _ =>
    unfold Latches commit
    rw [running]
    exact latches_halting (halted_conclude c)

theorem latches_pushAll (transactions : List Transaction) (inside : InBlock base c) :
    Latches (pushAll transactions) c := by
  induction transactions generalizing c with
  | nil => exact (Option.or_none).symm
  | cons t rest ih =>
    have pushed := latches_pushTransaction t c
    have kept := pushTransaction_inBlock inside t
    unfold Latches at pushed ⊢
    rw [pushAll]
    cases made : pushTransaction t c with
    | mk result after =>
      rw [made] at pushed kept
      cases result with
      | ok a =>
        have same : after.halted = c.halted := pushed.trans Option.or_none
        dsimp only
        rw [ih kept, same]
      -- A fatal error ends the block; with any other one the loop may go on.
      | error e =>
        dsimp only
        split
        · rw [bind_apply, abort_inBlock kept]
          exact pushed
        · rename_i harmless
          have harmless : e.isFatal = false := by
            rw [Bool.or_eq_true, not_or, Bool.not_eq_true] at harmless
            exact harmless.1
          have same : after.halted = c.halted := by
            rw [pushed, fatal?, harmless]
            exact Option.or_none
          rw [ih kept, same]

theorem Rests.latches_begin (rests : Rests number time c.db) (closed : c.openBlock = none) (next : UInt32)
    (when : Timestamp) : Latches (beginBlock next when) c := by
  rcases rests.begin closed next when with ⟨after, run, -, same⟩ | ⟨e, run, ⟨cause, rfl⟩ | ⟨reason, rfl, stopped⟩⟩
  · exact latches_harmless (by rw [run]; exact same) (by rw [run]; rfl)
  · exact latches_harmless (by rw [run]) (by rw [run]; rfl)
  · exact latches_stopped (by rw [run]) stopped

theorem Rests.latches_applyBlock [Observer ω] (rests : Rests number time c.db) (closed : c.openBlock = none)
    (b : Block) : Latches (Chain.applyBlock b) c := by
  refine (rests.latches_begin closed b.number b.time).bind fun _ mid begun => ?_
  rcases rests.begin closed b.number b.time with ⟨after, run, working, -⟩ | ⟨e, run, -⟩
  · rw [run] at begun
    cases begun
    exact (latches_pushAll b.transactions working.inside).bind fun _ full _ => latches_commit full
  · rw [run] at begun
    cases begun

theorem Latches.done {action : Action ω α} (latches : Latches action c) :
    (Chain.done (action c)).2.halted = c.halted.or (fatal? (Chain.done (action c)).1) := by
  unfold Chain.done
  rw [fatal?_map]
  exact latches

theorem Stands.latches [Observer ω] (rests : Rests number time base) (stands : Stands base c) (call : Call)
    (inTurn : call.inTurn c) : (call.run c).2.halted = c.halted.or (fatal? (call.run c).1) := by
  cases stands.turn inTurn with
  | begin closed same next when =>
    subst same
    exact rests.latches_begin closed next when
  | block closed same b =>
    subst same
    exact (rests.latches_applyBlock closed b).done
  | operation _ op => exact (latches_pushOperation op c).done
  | transaction _ t => exact (latches_pushTransaction t c).done
  | commit => exact (latches_commit c).done
  | abort => exact latches_abort c
  | drop working =>
    obtain ⟨after, run, -, -, same⟩ := working.abort
    simp only [Call.run, run, same]
    exact (Option.or_none).symm

-- The calls that would have something done, and not undone.
def Call.advances : Call → Bool
  | .abort | .drop => false
  | _ => true

theorem Stands.stopped [Observer ω] (stands : Stands base c) {reason : String} (stopped : c.halted = some reason)
    (call : Call) (inTurn : call.inTurn c) (advances : call.advances) :
    (call.run c).1 = .error (.halted reason) := by
  have refused : c.ensureRunning = .error (.halted reason) := by rw [ensureRunning, stopped]
  have begun (next : UInt32) (when : Timestamp) : beginBlock next when c = (.error (.halted reason), c) := by
    unfold beginBlock approveBlock
    rw [refused]
    rfl
  cases stands.turn inTurn with
  | begin _ _ next when =>
    change (beginBlock next when c).1 = _
    rw [begun]
  | block _ _ b =>
    change (applyBlock b c).1.map _ = _
    unfold applyBlock
    rw [bind_apply, begun]
    rfl
  | operation _ op =>
    change (pushOperation op c).1.map _ = _
    unfold pushOperation
    rw [refused]
    rfl
  | transaction _ t =>
    change (pushTransaction t c).1.map _ = _
    unfold pushTransaction
    rw [refused]
    rfl
  | commit working =>
    obtain ⟨after, run, -⟩ := working.commit_stopped stopped
    change (Chain.commit c).1.map _ = _
    rw [run]
    rfl
  | abort | drop => cases advances

theorem Call.answer_of_receipt [Observer ω] {call : Call} {receipt : BlockReceipt}
    (kept : call.receipt? c = some receipt) : call.advances ∧ (call.run c).1 = .ok () := by
  cases call with
  | commit =>
    change (Chain.commit c).1.toOption = _ at kept
    change _ ∧ (Chain.commit c).1.map _ = _
    cases answer : (Chain.commit c).1 with
    | error e => rw [answer] at kept; cases kept
    | ok _ => exact ⟨rfl, rfl⟩
  | block b =>
    change (applyBlock b c).1.toOption = _ at kept
    change _ ∧ (applyBlock b c).1.map _ = _
    cases answer : (applyBlock b c).1 with
    | error e => rw [answer] at kept; cases kept
    | ok _ => exact ⟨rfl, rfl⟩
  | _ => cases kept

end RoomLedger.Chain
