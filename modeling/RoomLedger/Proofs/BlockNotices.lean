import RoomLedger.Proofs.LastingRecords
import RoomLedger.Proofs.PendingChanges
import RoomLedger.Proofs.SessionLife

namespace RoomLedger

open Database

namespace Observer

variable {ω : Type} [Observer ω] {db : Database} {notice : Notice} {o : ω} {observers : List ω}

def hear (db : Database) (notices : List Notice) (o : ω) : ω :=
  notices.foldl (fun o notice => (tell db notice o).2) o

-- It does not fail, whatever it has been told before.
def Unfailing (o : ω) : Prop :=
  ∀ (past : List (Database × Notice)) (db : Database) (notice : Notice),
    (tell db notice (past.foldl (fun o told => (tell told.1 told.2 o).2) o)).1 = .ok ()

theorem unfailing_of (keeps : ω → Prop) (given : keeps o)
    (never : ∀ o, keeps o → ∀ db notice, (tell db notice o).1 = .ok () ∧ keeps (tell db notice o).2) :
    Unfailing o := by
  intro past
  induction past generalizing o with
  | nil => exact fun db notice => (never o given db notice).1
  | cons told rest ih => exact ih (never o given told.1 told.2).2

theorem Unfailing.tell (unfailing : Unfailing o) (db : Database) (notice : Notice) :
    (tell db notice o).1 = .ok () ∧ Unfailing (Observer.tell db notice o).2 :=
  ⟨unfailing [] db notice, fun past => unfailing ((db, notice) :: past)⟩

theorem Unfailing.hear (unfailing : Unfailing o) (db : Database) (notices : List Notice) :
    Unfailing (hear db notices o) := by
  induction notices generalizing o with
  | nil => exact unfailing
  | cons notice rest ih => exact ih (unfailing.tell db notice).2

theorem tellEach_unfailing (unfailing : ∀ o ∈ observers, Unfailing o) :
    tellEach db notice observers = (.ok (), observers.map fun o => (tell db notice o).2) := by
  induction observers with
  | nil => rfl
  | cons o rest ih =>
    obtain ⟨here, there⟩ := List.forall_mem_cons.mp unfailing
    have well := (here.tell db notice).1
    rw [tellEach, ih there]
    cases told : tell db notice o with
    | mk result after =>
      rw [told] at well
      cases well
      rw [List.map_cons, told]

theorem publish_unfailing (db : Database) (notices : List Notice) (unfailing : ∀ o ∈ observers, Unfailing o) :
    publish db notices observers = (.ok (), observers.map (hear db notices)) := by
  induction notices generalizing observers with
  | nil => exact congrArg _ (List.map_id observers).symm
  | cons notice rest ih =>
    rw [publish, tellEach_unfailing unfailing]
    dsimp only
    rw [ih (List.forall_mem_map.mpr fun o listed => ((unfailing o listed).tell db notice).2), List.map_map]
    rfl

end Observer

-- All differences between the records that there were and those that there are now.
structure NetChanges.Announces (changes : NetChanges) (held now : ObjectId → Option AnyRow) : Prop where
  created : ∀ id, id ∈ changes.created.ids ↔ held id = none ∧ (now id).isSome
  modified : ∀ id ∈ changes.modified.ids, (held id).isSome ∧ (now id).isSome
  removed : ∀ id, id ∈ changes.removed.ids ↔ (held id).isSome ∧ now id = none
  unmodified : ∀ id, (held id).isSome → (now id).isSome → id ∉ changes.modified.ids →
    now id = held id
  snapshots : changes.removed.ids = changes.snapshots.map AnyRow.id ∧
    ∀ r ∈ changes.snapshots, held r.id = some r
  apart : (changes.created.ids ++ changes.modified.ids ++ changes.removed.ids).Nodup
  concernedByCreated : ∀ a, changes.created.concerned.contains a ↔
    ∃ id ∈ changes.created.ids, ∃ r, now id = some r ∧ a ∈ r.concerned
  concernedByModified : ∀ a, changes.modified.concerned.contains a ↔
    ∃ id ∈ changes.modified.ids, ∃ r, now id = some r ∧ a ∈ r.concerned
  concernedByRemoved : ∀ a, changes.removed.concerned.contains a ↔ ∃ r ∈ changes.snapshots, a ∈ r.concerned
  concernedBefore : ∀ id ∈ changes.modified.ids, ∀ r, held id = some r →
    ∀ a ∈ r.concerned, changes.modified.concerned.contains a

namespace Database

variable {base db after : Database} {id : ObjectId} {a : AccountId}

theorem findAny_congr (same : after.contents = db.contents) : after.findAny = db.findAny := by
  refine funext fun id => ?_
  unfold findAny
  refine congrArg (Kind.ofId? id >>= ·) (funext fun k => ?_)
  have tables := congrArg (fun contents => contents.get k) same
  simp only [get_contents] at tables
  cases before : db.tables.get k <;> cases now : after.tables.get k <;> rw [before, now] at tables <;>
    simp_all

theorem contains_concernedBy (db : Database) (ids : List ObjectId) (a : AccountId) :
    (db.concernedBy ids).contains a ↔ ∃ id ∈ ids, ∃ r, db.findAny id = some r ∧ a ∈ r.concerned := by
  simp only [concernedBy, SortedSet.contains_ofList, decide_eq_true_iff, List.mem_flatMap, List.mem_filterMap]
  constructor
  · rintro ⟨r, ⟨id, listed, found⟩, member⟩
    exact ⟨id, listed, r, found, member⟩
  · rintro ⟨id, listed, r, found, member⟩
    exact ⟨r, ⟨id, listed, found⟩, member⟩

-- Whom a record concerns is fixed.
theorem Evolves.concerned (evolves : db.Evolves after) {r s : AnyRow} (found : db.findAny id = some r)
    (now : after.findAny id = some s) : s.concerned = r.concerned := by
  obtain ⟨n, rfl, stored⟩ := findAny_eq_some_iff.mp found
  rw [findAny_id, Option.map_eq_some_iff] at now
  obtain ⟨row, still, rfl⟩ := now
  exact (evolves.succeeds r.kind n r.row row stored still).concerned

theorem NetDifference.announces (difference : base.NetDifference db) (evolves : base.Evolves db) :
    db.netChanges.Announces base.findAny db.findAny := by
  have removed (id : ObjectId) : id ∈ db.removedRows.map AnyRow.id ↔
      (base.findAny id).isSome ∧ db.findAny id = none := by
    rw [List.mem_map, Option.isSome_iff_exists, ← exists_and_right]
    exact exists_congr fun r => difference.removed id r
  refine ⟨fun id => (difference.created id).trans and_comm, difference.modified, removed, ?_, ⟨rfl, ?_⟩,
    difference.apart, db.contains_concernedBy _, db.contains_concernedBy _, fun a => ?_, ?_⟩
  · intro id before now unlisted
    obtain ⟨r, found⟩ := Option.isSome_iff_exists.mp before
    obtain ⟨s, stored⟩ := Option.isSome_iff_exists.mp now
    by_contra different
    rw [found, stored, Option.some.injEq] at different
    exact unlisted (difference.unmodified id r s found stored (Ne.symm different))
  · exact fun r listed => ((difference.removed r.id r).mp ⟨listed, rfl⟩).1
  · change (SortedSet.ofList _).contains a ↔ _
    rw [SortedSet.contains_ofList, decide_eq_true_iff, List.mem_flatMap]
    rfl
  · intro id listed r found a member
    obtain ⟨s, now⟩ := Option.isSome_iff_exists.mp (difference.modified id listed).2
    refine (db.contains_concernedBy _ a).mpr ⟨id, listed, s, now, ?_⟩
    rwa [evolves.concerned found now]

end Database

namespace Chain

variable {ω α β : Type} {c : Chain ω} {base : Database} {block : OpenBlock}

-- Only of a block that is kept is anybody told anything.
def Silent (action : Action ω α) : Prop := ∀ c, (action c).2.observers = c.observers

theorem silent_onDatabase (change : Change ChainError α) : Silent (onDatabase (ω := ω) change) := fun _ => rfl

theorem observers_halting (action : Action ω α) (c : Chain ω) :
    (halting action c).2.observers = (action c).2.observers := by
  unfold halting
  split <;> rename_i made <;> rw [made]
  unfold halt
  split <;> rfl

theorem Silent.halting {action : Action ω α} (silent : Silent action) : Silent (Chain.halting action) :=
  fun c => (observers_halting action c).trans (silent c)

theorem Silent.bind {action : Action ω α} {next : α → Action ω β} (silent : Silent action)
    (later : ∀ a, Silent (next a)) : Silent (action >>= next) := by
  intro c
  have same := silent c
  rw [bind_apply]
  cases made : action c with
  | mk result after =>
    rw [made] at same
    cases result with
    | ok a => exact (later a after).trans same
    | error e => exact same

theorem silent_begin (number : UInt32) (time : Timestamp) : Silent (ω := ω) (beginBlock number time) := by
  intro c
  unfold beginBlock
  split
  · rfl
  · dsimp only
    split
    · rfl
    · exact (silent_onDatabase _).halting _

theorem silent_pushOperation (op : Operation) : Silent (ω := ω) (pushOperation op) := by
  intro c
  unfold pushOperation
  split
  · rfl
  · exact Silent.halting (fun _ => rfl) c

theorem silent_pushTransaction (t : Transaction) : Silent (ω := ω) (pushTransaction t) := by
  intro c
  unfold pushTransaction
  split
  · rfl
  · refine Silent.halting (fun c => ?_) c
    change (performTransaction t c).2.observers = _
    unfold performTransaction
    split <;> rfl

theorem silent_abort : Silent (ω := ω) abort := by
  refine Silent.halting fun c => ?_
  unfold abandon
  split <;> rfl

theorem silent_pushAll (transactions : List Transaction) : Silent (ω := ω) (pushAll transactions) := by
  induction transactions with
  | nil => exact fun _ => rfl
  | cons t rest ih =>
    intro c
    have same := silent_pushTransaction t c
    rw [pushAll]
    cases made : pushTransaction t c with
    | mk result after =>
      rw [made] at same
      cases result with
      | ok _ => exact (ih after).trans same
      | error e =>
        dsimp only
        split
        · exact (silent_abort.bind (fun _ _ => rfl) after).trans same
        · exact (ih after).trans same

def opening : Chronicle :=
  ⟨fun _ _ => True, fun _ _ db => ∃ base : Database, base.Sound ∧ base.push.Continues db ∧ base.Evolves db⟩

variable {total : Int} {config : Config} {history : List BlockReceipt} {number : UInt32} {time : Timestamp}

theorem opening_carriedOn : Chronicle.CarriedOn total config opening := by
  refine ⟨?_, ?_, ?_, fun _ _ _ _ _ given => given, fun _ _ _ _ _ _ _ _ => trivial⟩
  · rintro history db after number time standing level - follows advanced
    have sound := standing.grounded.sound
    obtain ⟨_, -, puts, -⟩ := Database.modify_eq_ok (push_sound sound) advanced
    have carried : Chronicle.CarriedOn total config _ := evolving_carriedOn sound
    exact ⟨db, sound, puts.continues, carried.begin history _ _ _ _ standing level (.refl sound) follows advanced⟩
  · rintro history block db after op outcome standing ⟨base, sound, continues, evolves⟩ run
    have kept := nested_continuing (op.perform_continuing config block.receipt.time []) db standing.grounded.sound
    rw [run] at kept
    exact ⟨base, sound, continues.trans kept,
      (evolving_carriedOn sound).operation history _ _ _ _ _ standing evolves run⟩
  · rintro history block db after t results standing ⟨base, sound, continues, evolves⟩ approved run
    have kept := nested_continuing (t.operations_continuing config block.receipt.time) db standing.grounded.sound
    rw [show nested _ db = _ from run] at kept
    exact ⟨base, sound, continues.trans kept,
      (evolving_carriedOn sound).transaction history _ _ _ _ _ standing evolves approved run⟩

-- All observers of a chain have been told of a block that began with `base`, and of nothing else.
def Told [Observer ω] (base : Database) (receipt : BlockReceipt) (c after : Chain ω) : Prop :=
  ∃ db : Database, db.contents = after.db.contents ∧ db.netChanges.Announces base.findAny after.db.findAny ∧
    after.observers = c.observers.map (Observer.hear db (db.netChanges.notices receipt))

theorem base_unique {other : Database} (inside : InBlock base c) (sound : other.Sound)
    (continues : other.push.Continues c.db) : other = base := by
  have one := undo_of_continues sound continues
  rw [undo_of_continues inside.sound inside.continues] at one
  cases one
  rfl

theorem idle_of_closed {tale : Chronicle} (holds : tale.IsTrue total config history c)
    (closed : c.openBlock = none) : tale.TrueIdle total config history c := by
  cases holds with
  | idle holds => exact holds
  | busy holds =>
    have opened := holds.busy.inside.opened
    rw [closed] at opened
    cases opened

theorem busy_of_inside {tale : Chronicle} (holds : tale.IsTrue total config history c) (inside : InBlock base c) :
    tale.TrueBusy total config history base c := by
  cases holds with
  | idle holds =>
    have opened := inside.opened
    rw [holds.idle.closed] at opened
    cases opened
  | busy holds => exact base_unique inside holds.busy.inside.sound holds.busy.inside.continues ▸ holds

variable [Observer ω]

theorem told_commit (holds : opening.TrueBusy total config history base c)
    (unfailing : ∀ o ∈ c.observers, Observer.Unfailing o) :
    ∃ receipt after, commit c = (.ok receipt, after) ∧ Told base receipt c after := by
  have inside := holds.busy.inside
  obtain ⟨block, opened, other, sound, continues, evolves⟩ := holds.pending
  obtain rfl := base_unique inside sound continues
  have published := Observer.publish_unfailing c.db (c.db.netChanges.notices block.receipt) unfailing
  rcases commit_cases inside holds.busy.running opened with
    ⟨db, observers, told, run, -, answer⟩ | ⟨e, after, told, -⟩
  · rw [published] at told
    cases told
    have recalls := Recalls.session (.outside sound holds.busy.level) continues
    have contents : c.db.contents = db.contents := by rw [← contents_commit c.db, run]
    refine ⟨block.receipt, _, answer, c.db, contents, ?_, rfl⟩
    change c.db.netChanges.Announces _ db.findAny
    rw [← findAny_congr contents]
    exact recalls.netDifference.announces evolves
  · rw [published] at told
    cases told

theorem told_block (holds : opening.TrueIdle total config history c)
    (unfailing : ∀ o ∈ c.observers, Observer.Unfailing o) (b : Block) :
    (∃ receipt after, applyBlock b c = (.ok receipt, after) ∧ Told c.db receipt c after) ∨
      ∃ e after, applyBlock b c = (.error e, after) ∧ after.observers = c.observers := by
  have begun := silent_begin b.number b.time c
  unfold applyBlock
  rw [bind_apply]
  rcases holds.begin opening_carriedOn b.number b.time with ⟨mid, run, busy⟩ | ⟨e, run⟩
  · have pushed := silent_pushAll b.transactions mid
    rw [run] at begun ⊢
    dsimp only
    rw [bind_apply]
    rcases busy.pushAll opening_carriedOn b.transactions with ⟨full, run, busy⟩ | ⟨e, after, run, -⟩
    · rw [run] at pushed ⊢
      have same : full.observers = c.observers := pushed.trans begun
      obtain ⟨receipt, after, run, told⟩ := told_commit busy (same ▸ unfailing)
      unfold Told at told ⊢
      rw [same] at told
      exact .inl ⟨receipt, after, run, told⟩
    · rw [run] at pushed ⊢
      exact .inr ⟨e, after, rfl, pushed.trans begun⟩
  · rw [run]
    exact .inr ⟨e, c, rfl, rfl⟩

theorem Stands.told (stands : Stands base c) (holds : opening.IsTrue total config history c)
    (unfailing : ∀ o ∈ c.observers, Observer.Unfailing o) (call : Call) (inTurn : call.inTurn c) :
    (∃ receipt, call.receipt? c = some receipt ∧ Told base receipt c (call.run c).2) ∨
      call.receipt? c = none ∧ (call.run c).2.observers = c.observers := by
  cases stands.turn inTurn with
  | begin _ _ number time => exact .inr ⟨rfl, silent_begin number time c⟩
  | operation _ op => exact .inr ⟨rfl, silent_pushOperation op c⟩
  | transaction _ t => exact .inr ⟨rfl, silent_pushTransaction t c⟩
  | abort | drop => exact .inr ⟨rfl, silent_abort c⟩
  | commit working =>
    obtain ⟨receipt, after, run, told⟩ := told_commit (busy_of_inside holds working.inside) unfailing
    obtain ⟨given, rfl⟩ := call_commit run
    exact .inl ⟨receipt, given, told⟩
  | block closed same b =>
    subst same
    rcases told_block (idle_of_closed holds closed) unfailing b with
      ⟨receipt, after, run, told⟩ | ⟨e, after, run, same⟩ <;> obtain ⟨given, rfl⟩ := call_block run
    · exact .inl ⟨receipt, given, told⟩
    · exact .inr ⟨given, same⟩

theorem Told.unfailing {receipt : BlockReceipt} {after : Chain ω} (told : Told base receipt c after)
    (unfailing : ∀ o ∈ c.observers, Observer.Unfailing o) : ∀ o ∈ after.observers, Observer.Unfailing o := by
  obtain ⟨db, -, -, heard⟩ := told
  rw [heard]
  exact List.forall_mem_map.mpr fun o listed => (unfailing o listed).hear db _

end Chain

end RoomLedger
