import RoomLedger.Proofs.HaltLatch

namespace RoomLedger.Chain

open Database

variable {ω : Type} {first last : Chain ω} {number : UInt32} {time : Timestamp}

structure Step (ω : Type) where
  before : Chain ω
  call : Call

namespace Step

variable [Observer ω]

def answer (s : Step ω) : Except ChainError Unit := (s.call.run s.before).1
def after (s : Step ω) : Chain ω := (s.call.run s.before).2
def receipt? (s : Step ω) : Option BlockReceipt := s.call.receipt? s.before

end Step

-- The calls that have been made since a chain began, and what has become of it.
inductive Path [Observer ω] (first : Chain ω) : List (Step ω) → Chain ω → Prop where
  | nil : Path first [] first
  | call {steps : List (Step ω)} {last : Chain ω} (earlier : Path first steps last) (call : Call)
      (inTurn : call.inTurn last) : Path first (steps ++ [⟨last, call⟩]) (call.run last).2

section

variable [Observer ω] {steps earlier later : List (Step ω)} {s : Step ω}

def receiptsOf (steps : List (Step ω)) : List BlockReceipt := steps.filterMap Step.receipt?

theorem receiptsOf_concat (steps : List (Step ω)) (c : Chain ω) (call : Call) :
    receiptsOf (steps ++ [⟨c, call⟩]) = receiptsOf steps ++ (call.receipt? c).toList := by
  rw [receiptsOf, List.filterMap_append, List.filterMap_cons, Step.receipt?]
  cases call.receipt? c <;> rfl

def Step.settle (db : Database) (s : Step ω) : Database := if s.receipt?.isSome then s.after.db else db

-- The database right after the last block that has been kept.
def settled (db : Database) (steps : List (Step ω)) : Database := steps.foldl Step.settle db

theorem settled_append (db : Database) (steps more : List (Step ω)) :
    settled db (steps ++ more) = settled (settled db steps) more := List.foldl_append

theorem settled_concat (db : Database) (steps : List (Step ω)) (s : Step ω) :
    settled db (steps ++ [s]) = Step.settle (settled db steps) s := settled_append ..

theorem settled_of_none (none : ∀ s ∈ steps, s.receipt? = none) (db : Database) : settled db steps = db := by
  induction steps with
  | nil => rfl
  | cons s rest ih =>
    obtain ⟨here, there⟩ := List.forall_mem_cons.mp none
    change settled (Step.settle db s) rest = db
    rw [Step.settle, here]
    exact ih there

theorem Path.commits (path : Path first steps last) : Commits first (receiptsOf steps) last := by
  induction path with
  | nil => exact .nil
  | call _ call inTurn ih =>
    rw [receiptsOf_concat]
    exact ih.call call inTurn

theorem Path.split (path : Path first steps last) (parts : steps = earlier ++ s :: later) :
    Path first earlier s.before ∧ s.call.inTurn s.before := by
  induction path generalizing later with
  | nil => exact absurd parts.symm (List.append_ne_nil_of_right_ne_nil _ (List.cons_ne_nil _ _))
  | call path call inTurn ih =>
    rcases List.eq_nil_or_concat later with rfl | ⟨between, other, rfl⟩
    · obtain ⟨rfl, same⟩ := List.append_inj' parts rfl
      cases same
      exact ⟨path, inTurn⟩
    · rw [List.concat_eq_append, ← List.cons_append, ← List.append_assoc] at parts
      exact ih (List.append_inj' parts rfl).1

def stop? (steps : List (Step ω)) : Option String := steps.findSome? fun s => fatal? s.answer

-- What is true of a run from a chain whose head is at a number and a time.
structure Life (number : UInt32) (time : Timestamp) (first : Chain ω) (steps : List (Step ω)) (last : Chain ω) :
    Prop where
  stands : Stands (settled first.db steps) last
  latched : last.halted = stop? steps
  numbers : (receiptsOf steps).map (fun r => r.number.toNat) =
    List.range' (number.toNat + 1) (receiptsOf steps).length
  times : (time :: (receiptsOf steps).map BlockReceipt.time).Pairwise fun s t => s.seconds ≤ t.seconds
  head : ∃ reached when, Rests reached when (settled first.db steps) ∧
    reached.toNat = number.toNat + (receiptsOf steps).length ∧
    ∀ t ∈ time :: (receiptsOf steps).map BlockReceipt.time, t.seconds ≤ when.seconds

theorem Life.latched_call (life : Life number time first steps last) (call : Call) (inTurn : call.inTurn last) :
    (call.run last).2.halted = stop? (steps ++ [⟨last, call⟩]) := by
  obtain ⟨_, _, rests, -⟩ := life.head
  rw [life.stands.latches rests call inTurn, life.latched, stop?, stop?, List.findSome?_append,
    List.findSome?_singleton]
  rfl

theorem Life.keep (life : Life number time first steps last) {call : Call} (inTurn : call.inTurn last)
    {receipt : BlockReceipt} (given : call.receipt? last = some receipt)
    (kept : Kept (settled first.db steps) receipt (call.run last).2) :
    Life number time first (steps ++ [⟨last, call⟩]) (call.run last).2 := by
  obtain ⟨reached, when, rests, counted, latest⟩ := life.head
  obtain ⟨head, stored, next, late⟩ := kept.follows
  rw [rests.head] at stored
  cases stored
  dsimp only at next late
  have told := receiptsOf_concat steps last call
  rw [given, Option.toList_some] at told
  have now : settled first.db (steps ++ [⟨last, call⟩]) = (call.run last).2.db := by
    rw [settled_concat, Step.settle, Step.receipt?, given]
    rfl
  refine ⟨.between kept.closed now.symm, life.latched_call call inTurn, ?_, ?_, receipt.number, receipt.time,
    by rw [now]; exact kept.rests, ?_, ?_⟩ <;> rw [told]
  · have follows : receipt.number.toNat = number.toNat + 1 + (receiptsOf steps).length := by omega
    rw [List.map_append, life.numbers, List.length_append, List.length_singleton, List.range'_1_concat,
      List.map_singleton, follows]
  · rw [List.map_append, ← List.cons_append]
    refine List.pairwise_append.mpr ⟨life.times, List.pairwise_singleton .., fun t listed r same => ?_⟩
    rw [List.mem_singleton.mp same]
    exact UInt32.le_trans (latest t listed) late
  · rw [List.length_append, List.length_singleton]
    omega
  · intro t listed
    rw [List.map_append, ← List.cons_append] at listed
    rcases List.mem_append.mp listed with before | now
    · exact UInt32.le_trans (latest t before) late
    · rw [List.mem_singleton.mp now]
      exact UInt32.le_refl _

theorem Life.stay (life : Life number time first steps last) {call : Call} (inTurn : call.inTurn last)
    (none : call.receipt? last = none) (stands : Stands (settled first.db steps) (call.run last).2) :
    Life number time first (steps ++ [⟨last, call⟩]) (call.run last).2 := by
  have told := receiptsOf_concat steps last call
  rw [none, Option.toList_none, List.append_nil] at told
  have same : settled first.db (steps ++ [⟨last, call⟩]) = settled first.db steps := by
    rw [settled_concat, Step.settle, Step.receipt?, none]
    rfl
  refine ⟨by rw [same]; exact stands, life.latched_call call inTurn, ?_, ?_, ?_⟩ <;> rw [told]
  · exact life.numbers
  · exact life.times
  · rw [same]
    exact life.head

theorem Path.life (path : Path first steps last) (rests : Rests number time first.db)
    (closed : first.openBlock = none) (running : first.halted = none) : Life number time first steps last := by
  induction path with
  | nil =>
    refine ⟨.between closed rfl, running, rfl, List.pairwise_singleton .., number, time, rests, rfl, ?_⟩
    intro t listed
    rw [List.mem_singleton.mp listed]
    exact UInt32.le_refl _
  | @call steps last path call inTurn ih =>
    obtain ⟨_, _, rests, -⟩ := ih.head
    rcases ih.stands.call rests call inTurn with ⟨receipt, given, kept⟩ | ⟨none, stands⟩
    · exact ih.keep inTurn given kept
    · exact ih.stay inTurn none stands

-- After the first fatal error nothing is kept, so that the database between sessions is what it was before.
theorem Path.stopped {reason : String} (path : Path first steps last) (rests : Rests number time first.db)
    (closed : first.openBlock = none) (running : first.halted = none) (parts : steps = earlier ++ s :: later)
    (fatal : fatal? s.answer = some reason) (harmless : ∀ x ∈ earlier, fatal? x.answer = none) :
    (∀ x ∈ later, x.call.advances → x.answer = .error (.halted reason)) ∧
      ∀ x ∈ s :: later, x.after.openBlock = none → x.after.db = settled first.db earlier := by
  have refused : ∀ x ∈ later, x.call.advances → x.answer = .error (.halted reason) := by
    intro x listed advances
    obtain ⟨between, rest, rfl⟩ := List.append_of_mem listed
    rw [← List.cons_append, ← List.append_assoc] at parts
    obtain ⟨path, inTurn⟩ := path.split parts
    have life := path.life rests closed running
    have stopped : x.before.halted = some reason := by
      rw [life.latched, stop?, List.findSome?_append, List.findSome?_eq_none_iff.mpr harmless, List.findSome?_cons,
        fatal]
      rfl
    exact life.stands.stopped stopped x.call inTurn advances
  -- So no call after the error keeps a block.
  have silent : ∀ x ∈ s :: later, x.receipt? = none := by
    intro x listed
    cases given : x.receipt? with
    | none => rfl
    | some receipt =>
      obtain ⟨advances, answer⟩ := Call.answer_of_receipt given
      rcases List.mem_cons.mp listed with rfl | after
      · rw [Step.answer, answer] at fatal
        cases fatal
      · have halted := refused x after advances
        rw [Step.answer, answer] at halted
        cases halted
  refine ⟨refused, fun x listed ended => ?_⟩
  obtain ⟨between, rest, split⟩ := List.append_of_mem listed
  rw [split, ← List.append_assoc] at parts
  obtain ⟨path, inTurn⟩ := path.split parts
  have life := (path.call x.call inTurn).life rests closed running
  have same : settled first.db (earlier ++ between ++ [x]) = settled first.db earlier := by
    rw [List.append_assoc, settled_append]
    refine settled_of_none (fun y given => silent y ?_) _
    rw [split, List.append_cons]
    exact List.mem_append_left _ given
  cases life.stands with
  | between _ here => exact here.trans same
  | within block working =>
    have opened : x.after.openBlock = some block := working.opened
    rw [ended] at opened
    cases opened

end

variable {config : Config} {genesis : Genesis} {observers : List ω}

theorem start_rests (started : start config genesis observers = .ok first) : Rests 0 genesis.time first.db := by
  obtain ⟨standing, level, -⟩ := start_eq_ok started
  obtain ⟨-, populated⟩ := Genesis.apply_populates (start_applies started).1
  exact ⟨standing.grounded.sound, level, genesis.populate_head populated⟩

def closeDen : Operation := .deleteRoom ⟨.core 100000, ⟨2⟩, ⟨0⟩⟩

def walk [Observer ω] (c : Chain ω) : List Call → List (Step ω) × Chain ω
  | [] => ([], c)
  | call :: rest =>
    let (steps, last) := walk (call.run c).2 rest
    (⟨c, call⟩ :: steps, last)

end RoomLedger.Chain
