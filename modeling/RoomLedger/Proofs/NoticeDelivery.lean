import RoomLedger.Proofs.BlockNotices
import RoomLedger.Proofs.ReachedStates
import RoomLedger.Proofs.ReceiptEntries

namespace RoomLedger

def Notice.isDue : Notice → Bool
  | created records | changed records | removed records _ => !records.ids.isEmpty
  | applied _ => true

def NetChanges.events (changes : NetChanges) (receipt : BlockReceipt) : List Notice :=
  [.created changes.created, .changed changes.modified, .removed changes.removed changes.snapshots,
    .applied receipt].filter Notice.isDue

theorem NetChanges.notices_eq_events (changes : NetChanges) (receipt : BlockReceipt) :
    changes.notices receipt = changes.events receipt := by
  have about (records : Changed) (notice : Notice) (due : notice.isDue = !records.ids.isEmpty) :
      (if records.ids.isEmpty then [] else [notice]) = [notice].filter Notice.isDue := by
    rw [List.filter_singleton, due]
    cases records.ids.isEmpty <;> rfl
  unfold notices events
  dsimp only
  rw [about _ _ rfl, about _ _ rfl, about _ _ rfl, ← List.filter_append, ← List.filter_append]
  exact (List.filter_append (_ ++ _ ++ _) [Notice.applied receipt]).symm

namespace Observer

variable {ω : Type} [Observer ω] {db : Database} {observers : List ω}

structure Delivery where
  notice : Notice
  place : Nat

-- Every notice for every observer: by notice first, and then by place.
def deliveries (notices : List Notice) (count : Nat) : List Delivery :=
  notices.flatMap fun notice => (List.range count).map (Delivery.mk notice)

def heed (db : Database) (d : Delivery) (observers : List ω) : List ω :=
  observers.modify d.place fun o => (tell db d.notice o).2

-- What becomes of the observers, whatever they answer.
def told (db : Database) (made : List Delivery) (observers : List ω) : List ω :=
  made.foldl (fun observers d => heed db d observers) observers

-- The error of an observer that fails: its name, the event, and its reason.
def refusal? (db : Database) (d : Delivery) (observers : List ω) : Option ChainError :=
  match observers[d.place]?.map (tell db d.notice) with
  | some (.error reason, o) => some (.notification (name o) d.notice.name reason)
  | _ => none

def Fails (db : Database) (observers : List ω) (made : List Delivery) (e : ChainError) : Prop :=
  ∃ earlier d, made = earlier ++ [d] ∧ refusal? db d (told db earlier observers) = some e

-- Of all deliveries those are made that are the shortest part ending in a failure, or all if there is none.
inductive Published (db : Database) (all : List Delivery) (observers : List ω) :
    Except ChainError Unit × List ω → Prop where
  | whole (well : ∀ made e, made <+: all → ¬Fails db observers made e) :
      Published db all observers (.ok (), told db all observers)
  | broken {made : List Delivery} {e : ChainError} (part : made <+: all) (fails : Fails db observers made e)
      (shortest : ∀ other e', other <+: all → Fails db observers other e' → made.length ≤ other.length) :
      Published db all observers (.error e, told db made observers)

theorem length_heed (d : Delivery) (observers : List ω) : (heed db d observers).length = observers.length :=
  List.length_modify ..

-- An observer has heard what was delivered at its place, and nothing else.
theorem getElem?_told (made : List Delivery) (observers : List ω) (place : Nat) :
    (told db made observers)[place]? =
      observers[place]?.map (hear db ((made.filter fun d => d.place = place).map Delivery.notice)) := by
  induction made generalizing observers with
  | nil => exact Option.map_id'.symm
  | cons d later ih =>
    change (told db later (heed db d observers))[place]? = _
    rw [ih, heed]
    by_cases here : d.place = place
    · rw [List.filter_cons, if_pos (decide_eq_true here), List.map_cons, here, List.getElem?_modify_eq,
        Option.map_eq_map, Option.map_map]
      rfl
    · rw [List.filter_cons, if_neg (by simpa using here), List.getElem?_modify_ne _ _ here]

theorem fails_cons {d : Delivery} {made : List Delivery} {e : ChainError} : Fails db observers (d :: made) e ↔
    made = [] ∧ refusal? db d observers = some e ∨ Fails db (heed db d observers) made e := by
  constructor
  · rintro ⟨earlier, last, split, refused⟩
    cases earlier with
    | nil =>
      cases split
      exact .inl ⟨rfl, refused⟩
    | cons first earlier =>
      cases split
      exact .inr ⟨earlier, last, rfl, refused⟩
  · rintro (⟨rfl, refused⟩ | ⟨earlier, last, rfl, refused⟩)
    · exact ⟨[], d, rfl, refused⟩
    · exact ⟨d :: earlier, last, rfl, refused⟩

theorem Fails.isFatal {made : List Delivery} {e : ChainError} (fails : Fails db observers made e) : e.isFatal := by
  obtain ⟨earlier, d, -, refused⟩ := fails
  unfold refusal? at refused
  split at refused <;> cases refused
  rfl

theorem not_fails_nil {e : ChainError} : ¬Fails db observers [] e := by
  rintro ⟨earlier, d, split, -⟩
  exact List.append_ne_nil_of_right_ne_nil earlier (List.cons_ne_nil d []) split.symm

def deliver (db : Database) : List Delivery → List ω → Except ChainError Unit × List ω
  | [], observers => (.ok (), observers)
  | d :: later, observers =>
    match refusal? db d observers with
    | some e => (.error e, heed db d observers)
    | none => deliver db later (heed db d observers)

theorem Published.refused {d : Delivery} {e : ChainError} (refused : refusal? db d observers = some e)
    (later : List Delivery) : Published db (d :: later) observers (.error e, heed db d observers) := by
  have shortest : ∀ other e', other <+: d :: later → Fails db observers other e' → [d].length ≤ other.length := by
    intro other e' _ fails
    cases other with
    | nil => exact absurd fails not_fails_nil
    | cons _ rest => exact Nat.succ_le_succ (Nat.zero_le rest.length)
  exact .broken (List.prefix_append [d] later) ⟨[], d, rfl, refused⟩ shortest

theorem Published.cons {d : Delivery} {later : List Delivery} {ended : Except ChainError Unit × List ω}
    (taken : refusal? db d observers = none) (rest : Published db later (heed db d observers) ended) :
    Published db (d :: later) observers ended := by
  have fails_iff (made : List Delivery) (e : ChainError) :
      Fails db observers (d :: made) e ↔ Fails db (heed db d observers) made e := by
    rw [fails_cons, taken]
    exact or_iff_right fun impossible => nomatch impossible.2
  have parts {made : List Delivery} {e : ChainError} (part : made <+: d :: later)
      (fails : Fails db observers made e) :
      ∃ rest, made = d :: rest ∧ rest <+: later ∧ Fails db (heed db d observers) rest e := by
    cases made with
    | nil => exact absurd fails not_fails_nil
    | cons first rest =>
      obtain ⟨same, within⟩ := List.cons_prefix_cons.mp part
      rw [same] at fails ⊢
      exact ⟨rest, rfl, within, (fails_iff rest e).mp fails⟩
  cases rest with
  | whole well =>
    refine .whole fun made e part fails => ?_
    obtain ⟨rest, -, within, still⟩ := parts part fails
    exact well rest e within still
  | @broken made e part fails shortest =>
    refine .broken (List.cons_prefix_cons.mpr ⟨rfl, part⟩) ((fails_iff made e).mpr fails) fun other e' part fails => ?_
    obtain ⟨rest, rfl, within, still⟩ := parts part fails
    exact Nat.succ_le_succ (shortest rest e' within still)

theorem deliver_published (all : List Delivery) (observers : List ω) :
    Published db all observers (deliver db all observers) := by
  induction all generalizing observers with
  | nil =>
    refine .whole fun made e part fails => ?_
    rw [List.prefix_nil.mp part] at fails
    exact not_fails_nil fails
  | cons d later ih =>
    rw [deliver]
    cases refused : refusal? db d observers with
    | some e => exact .refused refused later
    | none => exact (ih (heed db d observers)).cons refused

theorem length_deliver (db : Database) (all : List Delivery) (observers : List ω) :
    (deliver db all observers).2.length = observers.length := by
  induction all generalizing observers with
  | nil => rfl
  | cons d later ih =>
    rw [deliver]
    split
    · exact length_heed d observers
    · rw [ih, length_heed]

theorem deliver_append {front back : List Delivery} {mid : List ω}
    (first : deliver db front observers = (.ok (), mid)) :
    deliver db (front ++ back) observers = deliver db back mid := by
  induction front generalizing observers with
  | nil =>
    cases first
    rfl
  | cons d later ih =>
    rw [deliver] at first
    rw [List.cons_append, deliver]
    split <;> rename_i refused <;> rw [refused] at first
    · cases first
    · exact ih first

theorem deliver_append_error {front : List Delivery} {mid : List ω} {e : ChainError}
    (first : deliver db front observers = (.error e, mid)) (back : List Delivery) :
    deliver db (front ++ back) observers = (.error e, mid) := by
  induction front generalizing observers with
  | nil => cases first
  | cons d later ih =>
    rw [deliver] at first
    rw [List.cons_append, deliver]
    split <;> rename_i refused <;> rw [refused] at first
    · exact first
    · exact ih first

theorem modify_middle {α : Type} (front back : List α) (a : α) (f : α → α) :
    (front ++ a :: back).modify front.length f = front ++ f a :: back := by
  induction front with
  | nil => rfl
  | cons b front ih => exact congrArg (b :: ·) ih

-- One notice, to the observers that have not been told of it yet.
theorem deliver_notice (notice : Notice) (front back : List ω) :
    deliver db ((List.range' front.length back.length).map (Delivery.mk notice)) (front ++ back) =
      ((tellEach db notice back).1, front ++ (tellEach db notice back).2) := by
  induction back generalizing front with
  | nil => rfl
  | cons o rest ih =>
    have heeded : heed db ⟨notice, front.length⟩ (front ++ o :: rest) = front ++ (tell db notice o).2 :: rest :=
      modify_middle ..
    have placed : (front ++ o :: rest)[front.length]? = some o := by
      rw [List.getElem?_append_right (Nat.le_refl _), Nat.sub_self, List.getElem?_cons_zero]
    rw [List.length_cons, List.range'_succ, List.map_cons, deliver, heeded, refusal?, placed, Option.map_some, tellEach]
    dsimp only
    cases answer : tell db notice o with
    | mk result after =>
      cases result with
      | error reason => rfl
      | ok _ =>
        have later := ih (front ++ [after])
        rw [List.length_append, List.length_singleton, List.append_assoc] at later
        dsimp only
        exact later.trans (by rw [List.append_assoc]; rfl)

theorem deliver_each (db : Database) (notice : Notice) (observers : List ω) :
    deliver db ((List.range observers.length).map (Delivery.mk notice)) observers = tellEach db notice observers := by
  rw [List.range_eq_range']
  exact deliver_notice notice [] observers

theorem publish_eq_deliver (notices : List Notice) (observers : List ω) :
    publish db notices observers = deliver db (deliveries notices observers.length) observers := by
  induction notices generalizing observers with
  | nil => rfl
  | cons notice later ih =>
    have each := deliver_each db notice observers
    have length := length_deliver db ((List.range observers.length).map (Delivery.mk notice)) observers
    rw [publish, deliveries, List.flatMap_cons]
    rw [each] at length
    cases answer : tellEach db notice observers with
    | mk result after =>
      rw [answer] at each length
      cases result with
      | error e => exact (deliver_append_error each _).symm
      | ok _ =>
        rw [deliver_append each]
        exact (ih after).trans (by rw [length]; rfl)

theorem publish_published (db : Database) (notices : List Notice) (observers : List ω) :
    Published db (deliveries notices observers.length) observers (publish db notices observers) := by
  rw [publish_eq_deliver]
  exact deliver_published ..

end Observer

namespace Chain

variable {ω : Type} {c : Chain ω} {base : Database} {block : OpenBlock}

-- A block that was begun on `base` and has led to `db` is kept if the observers have all been told of it. If one
-- fails, then it is taken back, and the chain stops.
structure Abides (base db : Database) (receipt : BlockReceipt) (ended : Except ChainError Unit × List ω)
    (committed : Except ChainError BlockReceipt × Chain ω) : Prop where
  answer : committed.1 = ended.1.map fun _ => receipt
  observers : committed.2.observers = ended.2
  closed : committed.2.openBlock = none
  kept : committed.1 = .ok receipt → committed.2.db.contents = db.contents ∧ committed.2.halted = none
  takenBack : ∀ e, committed.1 = .error e → committed.2.db = base ∧ committed.2.halted = some e.message

theorem observers_commit [Observer ω] (running : c.halted = none) (opened : c.openBlock = some block)
    (noted : c.db.depth ≠ 0) : (commit c).2.observers =
      (Observer.publish c.db (c.db.netChanges.notices block.receipt) c.observers).2 := by
  have ready : c.ensureRunning = .ok () := by rw [ensureRunning, running]
  unfold commit
  rw [ready]
  dsimp only
  rw [observers_halting]
  unfold conclude announce
  simp only [opened, noted, if_false]
  cases Observer.publish c.db (c.db.netChanges.notices block.receipt) c.observers with
  | mk result observers => cases result <;> rfl

theorem commit_abides [Observer ω] (inside : InBlock base c) (running : c.halted = none)
    (opened : c.openBlock = some block) : Abides base c.db block.receipt
      (Observer.publish c.db (c.db.netChanges.notices block.receipt) c.observers) (commit c) := by
  have noted : c.db.depth ≠ 0 := by
    rw [show c.db.depth = base.depth + 1 from inside.continues.depth]
    exact Nat.succ_ne_zero _
  have told := observers_commit running opened noted
  have latched := latches_commit c
  rw [Latches, running, Option.none_or] at latched
  have published := Observer.publish_published c.db (c.db.netChanges.notices block.receipt) c.observers
  rcases commit_cases inside running opened with
    ⟨db, observers, ended, kept, -, answer⟩ | ⟨e, after, ended, answer, same, closed, -⟩
  · have contents := Database.contents_commit c.db
    rw [kept] at contents
    rw [answer] at told latched ⊢
    rw [ended]
    exact ⟨rfl, rfl, rfl, fun _ => ⟨contents, latched⟩, fun _ failed => (by cases failed)⟩
  · rw [answer] at told latched ⊢
    refine ⟨by rw [ended]; rfl, told, closed, fun kept => (by cases kept), fun _ failed => ?_⟩
    cases failed
    refine ⟨same, latched.trans (if_pos ?_)⟩
    -- An observer failed, and that is an error which stops the chain.
    generalize Observer.publish c.db _ c.observers = outcome at ended published
    cases published with
    | whole => cases ended
    | broken _ fails =>
      cases ended
      exact fails.isFatal

namespace Push

variable (p : Push)

theorem run_inBlock (inside : InBlock base c) : InBlock base (p.run c).2 := by
  cases p with
  | operation op =>
    rcases pushOperation_cases op c with ⟨e, same⟩ | ⟨time, -, db, opened⟩
    · exact (congrArg Prod.snd same) ▸ inside
    · have kept := nested_continuing (op.perform_continuing c.config time []) c.db inside.current
      exact ⟨inside.sound, db ▸ inside.continues.trans kept, opened ▸ inside.opened⟩
  | transaction t => exact pushTransaction_inBlock inside t

theorem silent_run : Silent (ω := ω) p.run := by
  cases p with
  | operation op => exact silent_pushOperation op
  | transaction t => exact silent_pushTransaction t

end Push

theorem session_inBlock (pushes : List Push) (inside : InBlock base c) : InBlock base (session pushes c).2 := by
  induction pushes generalizing c with
  | nil => exact inside
  | cons p rest ih => exact ih (p.run_inBlock inside)

theorem observers_session (pushes : List Push) (c : Chain ω) : (session pushes c).2.observers = c.observers := by
  induction pushes generalizing c with
  | nil => rfl
  | cons p rest ih => exact (ih (p.run c).2).trans (p.silent_run c)

-- A session begun where a run has led, whoever listens by then, that has not stopped the chain before it is committed.
theorem session_abides [Observer ω] {config : Config} {genesis : Genesis} {watchers observers : List ω}
    {first last opened full : Chain ω} {answers : List (Except ChainError Unit)} {number : UInt32} {time : Timestamp}
    {pushes : List Push} {given : List Answered} (started : start config genesis watchers = .ok first)
    (run : Run first answers last)
    (begun : beginBlock number time { last with observers := observers } = (.ok (), opened))
    (pushed : session pushes opened = (given, full)) (running : full.halted = none) :
    ∃ block, full.openBlock = some block ∧ Abides last.db full.db block.receipt
      (Observer.publish full.db (full.db.netChanges.notices block.receipt) observers) (commit full) := by
  have sound : last.db.Sound := (reached_standing started run .between).grounded.sound
  have same : full.observers = observers := by
    have silent := silent_begin number time { last with observers := observers }
    have still := observers_session pushes opened
    rw [begun] at silent
    rw [pushed] at still
    exact still.trans silent
  rcases beginBlock_cases (c := { last with observers := observers }) number time sound with
    ⟨e, refused, -⟩ | ⟨e, refused, -⟩ | ⟨other, begins, inside⟩
  · rw [begun] at refused
    cases refused
  · rw [begun] at refused
    cases refused
  · rw [begun] at begins
    cases begins
    have inside := session_inBlock pushes inside
    rw [pushed] at inside
    obtain ⟨block, filled⟩ := Option.isSome_iff_exists.mp inside.opened
    have abides := commit_abides inside running filled
    rw [same] at abides
    exact ⟨block, filled, abides⟩

theorem delivery_ends_at_first_failure [Observer ω] :
    (∀ (changes : NetChanges) (receipt : BlockReceipt), changes.notices receipt = changes.events receipt) ∧
    (∀ db (changes : NetChanges) receipt (observers : List ω), Observer.Published db
      (Observer.deliveries (changes.events receipt) observers.length) observers
      (Observer.publish db (changes.notices receipt) observers)) ∧
    (∀ db made (observers : List ω) place, (Observer.told db made observers)[place]? = observers[place]?.map
      (Observer.hear db ((made.filter fun d => d.place = place).map Observer.Delivery.notice))) ∧
    ∀ config genesis (watchers observers : List ω) (first last opened full : Chain ω) answers number time pushes given,
      start config genesis watchers = .ok first → Run first answers last →
      beginBlock number time { last with observers := observers } = (.ok (), opened) →
      session pushes opened = (given, full) → full.halted = none →
        ∃ block, full.openBlock = some block ∧ Abides last.db full.db block.receipt
          (Observer.publish full.db (full.db.netChanges.notices block.receipt) observers) (commit full) := by
  refine ⟨NetChanges.notices_eq_events, fun db changes receipt observers => ?_, fun _ => Observer.getElem?_told, ?_⟩
  · rw [← changes.notices_eq_events]
    exact Observer.publish_published ..
  · intro _ _ _ _ _ _ _ _ _ _ _ _ _ started run begun pushed running
    exact session_abides started run begun pushed running

-- One of three does not want to hear of changes: the one after it is not told of them, and nobody of the block.
def audience : List Watcher := [.recorder [] none, .named "clerk" (some "objects_changed"), .recorder [] none]

def attended : Chain Watcher := (beginBlock 1 ⟨7⟩ { founded with observers := audience }).2

def heardNames (c : Chain Watcher) : List (Option (List String)) :=
  c.observers.map fun w => w.events?.map fun heard => heard.map Notice.name

theorem delivery_ends_at_first_failure_clerk :
    start .permissive funded [Watcher.idle] = .ok founded ∧ Run founded [] founded ∧
    beginBlock 1 ⟨7⟩ { founded with observers := audience } = (.ok (), attended) ∧
    (session [.operation openDen] attended).2.halted = none ∧
    (commit (session [.operation openDen] attended).2).1 =
      .error (.notification "clerk" "objects_changed" "clerk says no") ∧
    (commit (session [.operation openDen] attended).2).2.db = founded.db ∧
    heardNames (commit (session [.operation openDen] attended).2).2 =
      [some ["objects_created", "objects_changed"], none, some ["objects_created"]] := by
  have begun : beginBlock 1 ⟨7⟩ { founded with observers := audience } = (.ok (), attended) := Prod.ext (by rfl) rfl
  have running : (session [.operation openDen] attended).2.halted = none := by rfl
  obtain ⟨_, -, abides⟩ := delivery_ends_at_first_failure.2.2.2 _ _ _ _ _ _ _ _ _ _ _ _ _
    founded_started .nil begun rfl running
  have answer : (commit (session [.operation openDen] attended).2).1 =
      .error (.notification "clerk" "objects_changed" "clerk says no") := by rfl
  exact ⟨founded_started, .nil, begun, running, answer, (abides.takenBack _ answer).1, by decide +kernel⟩

end Chain

end RoomLedger
