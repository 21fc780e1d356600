import RoomLedger.Proofs.BlockNotices

namespace RoomLedger

-- Begins with a copy of all records, drops what it is told has been removed and reads anew what it
-- is told has been created or changed.
structure Replica where
  records : SortedMap ObjectId AnyRow

namespace Replica

variable {ω : Type} [Observer ω] {db : Database} {copy : Replica} {id : ObjectId}

def reread (db : Database) (ids : List ObjectId) (copy : Replica) : Replica :=
  ⟨ids.foldl (fun records id => match db.findAny id with
    | some r => records.insert id r
    | none => records.erase id) copy.records⟩

def drop (ids : List ObjectId) (copy : Replica) : Replica := ⟨ids.foldl SortedMap.erase copy.records⟩

def heed (db : Database) (notice : Notice) (copy : Replica) : Replica :=
  match notice with
  | .created records | .changed records => copy.reread db records.ids
  | .removed records _ => copy.drop records.ids
  | .applied _ => copy

instance : Observer Replica where
  name _ := "replica"
  tell db notice copy := (.ok (), copy.heed db notice)

instance : Observer (Replica ⊕ ω) where
  name := Sum.elim Observer.name Observer.name
  tell db notice
    | .inl copy => (.ok (), .inl (copy.heed db notice))
    | .inr o =>
      let (result, o) := Observer.tell db notice o
      (result, .inr o)

theorem unfailing_inl (copy : Replica) : Observer.Unfailing (.inl copy : Replica ⊕ ω) := by
  refine Observer.unfailing_of (fun o => ∃ copy, o = .inl copy) ⟨copy, rfl⟩ fun o given db notice => ?_
  obtain ⟨copy, rfl⟩ := given
  exact ⟨rfl, _, rfl⟩

theorem unfailing_inr {o : ω} (unfailing : Observer.Unfailing o) :
    Observer.Unfailing (.inr o : Replica ⊕ ω) := by
  refine Observer.unfailing_of (fun other => ∃ o, other = .inr o ∧ Observer.Unfailing o) ⟨o, rfl, unfailing⟩
    fun other given db notice => ?_
  obtain ⟨o, rfl, unfailing⟩ := given
  exact ⟨(unfailing.tell db notice).1, _, rfl, (unfailing.tell db notice).2⟩

theorem hear_inl (db : Database) (notices : List Notice) (copy : Replica) :
    Observer.hear db notices (.inl copy : Replica ⊕ ω) = .inl (Observer.hear db notices copy) := by
  induction notices generalizing copy with
  | nil => rfl
  | cons notice rest ih => exact ih (copy.heed db notice)

theorem get?_reread (ids : List ObjectId) (copy : Replica) :
    (copy.reread db ids).records.get? id = if id ∈ ids then db.findAny id else copy.records.get? id := by
  induction ids generalizing copy with
  | nil => rfl
  | cons first rest ih =>
    refine (ih ⟨_⟩).trans ?_
    by_cases later : id ∈ rest
    · simp [later]
    · rw [if_neg later]
      by_cases same : id = first
      · subst same
        rw [if_pos List.mem_cons_self]
        cases db.findAny id <;> simp [SortedMap.get?_insert, SortedMap.get?_erase]
      · rw [if_neg (by simp [same, later])]
        cases db.findAny first <;> simp [same, SortedMap.get?_insert, SortedMap.get?_erase]

theorem get?_drop (ids : List ObjectId) (copy : Replica) :
    (copy.drop ids).records.get? id = if id ∈ ids then none else copy.records.get? id := by
  induction ids generalizing copy with
  | nil => rfl
  | cons first rest ih =>
    refine (ih ⟨copy.records.erase first⟩).trans ?_
    rw [SortedMap.get?_erase]
    by_cases later : id ∈ rest <;> by_cases same : id = first <;> simp [later, same]

theorem hear_append (db : Database) (notices more : List Notice) (copy : Replica) :
    Observer.hear db (notices ++ more) copy = Observer.hear db more (Observer.hear db notices copy) :=
  List.foldl_append

-- Of what is empty nothing is told, and to heed it would have changed nothing.
theorem hear_about {ids : List ObjectId} {notice : Notice} (copy : Replica)
    (idle : ids = [] → copy.heed db notice = copy) :
    Observer.hear db (if ids.isEmpty then [] else [notice]) copy = copy.heed db notice := by
  split
  · rename_i empty
    exact (idle (List.isEmpty_iff.mp empty)).symm
  · rfl

theorem hear_notices (db : Database) (changes : NetChanges) (receipt : BlockReceipt) (copy : Replica) :
    Observer.hear db (changes.notices receipt) copy =
      ((copy.reread db changes.created.ids).reread db changes.modified.ids).drop changes.removed.ids := by
  unfold NetChanges.notices
  rw [hear_append, hear_append, hear_append, hear_about, hear_about, hear_about]
  · rfl
  all_goals
    intro none
    simp only [heed, none]
    rfl

theorem get?_hear {changes : NetChanges} (announces : changes.Announces copy.records.get? db.findAny)
    (receipt : BlockReceipt) :
    (Observer.hear db (changes.notices receipt) copy).records.get? id = db.findAny id := by
  rw [hear_notices, get?_drop, get?_reread, get?_reread]
  by_cases removed : id ∈ changes.removed.ids
  · rw [if_pos removed, ((announces.removed id).mp removed).2]
  · rw [if_neg removed]
    by_cases modified : id ∈ changes.modified.ids
    · rw [if_pos modified]
    · rw [if_neg modified]
      by_cases created : id ∈ changes.created.ids
      · rw [if_pos created]
      · rw [if_neg created]
        -- The id is told of in no way: it was held if and only if it is there, and it is the same.
        rw [announces.removed, not_and] at removed
        rw [announces.created, not_and] at created
        cases held : copy.records.get? id with
        | none =>
          rw [Option.not_isSome_iff_eq_none.mp (created held)]
        | some r =>
          have stored := Option.isSome_iff_ne_none.mpr (removed (by rw [held]; rfl))
          rw [announces.unmodified id (by rw [held]; rfl) stored modified, held]

end Replica

namespace Database

variable {db : Database} {id : ObjectId} {r : AnyRow}

def catalog (db : Database) : SortedMap ObjectId AnyRow := .ofList (db.all.map fun r => (r.id, r))

theorem mem_all_iff (sound : db.Sound) : r ∈ db.all ↔ db.findAny r.id = some r := by
  unfold all
  rw [List.mem_flatMap, findAny_eq_some_iff]
  constructor
  · rintro ⟨k, -, listed⟩
    obtain ⟨row, member, rfl⟩ := List.mem_map.mp listed
    exact ⟨_, rfl, (mem_rows sound).mp member⟩
  · rintro ⟨n, same, stored⟩
    obtain rfl : Stored.number r.row = n := (Kind.id_inj.mp same).2
    exact ⟨r.kind, Kind.mem_all r.kind, List.mem_map.mpr ⟨r.row, (mem_rows sound).mpr stored, rfl⟩⟩

theorem id_of_findAny (sound : db.Sound) (found : db.findAny id = some r) : r.id = id := by
  obtain ⟨n, rfl, stored⟩ := findAny_eq_some_iff.mp found
  exact Kind.id_inj.mpr ⟨rfl, sound.numbered stored⟩

theorem get?_catalog (sound : db.Sound) : db.catalog.get? = db.findAny := by
  refine funext fun id => Option.ext fun r => ?_
  have nodup : ((db.all.map fun r => (r.id, r)).map Prod.fst).Nodup := by
    rw [List.map_map]
    exact nodup_ids sound
  rw [catalog, SortedMap.get?_ofList nodup, List.mem_map]
  constructor
  · rintro ⟨r, listed, same⟩
    cases same
    exact (mem_all_iff sound).mp listed
  · intro found
    obtain rfl := id_of_findAny sound found
    exact ⟨r, (mem_all_iff sound).mpr found, rfl⟩

end Database

namespace Chain

open Database

variable {ω : Type} [Observer ω] {i : Nat} {base : Database} {c : Chain (Replica ⊕ ω)}

def Mirrors (i : Nat) (base : Database) (c : Chain (Replica ⊕ ω)) : Prop :=
  ∃ copy : Replica, c.observers[i]? = some (.inl copy) ∧ copy.records = base.catalog

def Fed (i : Nat) (receipt : BlockReceipt) (c after : Chain (Replica ⊕ ω)) : Prop :=
  ∃ (copy : Replica) (db : Database), c.observers[i]? = some (.inl copy) ∧ db.contents = after.db.contents ∧
    db.netChanges.Announces copy.records.get? after.db.findAny ∧
    after.observers = c.observers.map (Observer.hear db (db.netChanges.notices receipt)) ∧ Mirrors i after.db after

-- Nobody is told anything but of a block that is kept.
structure Step.Projected (i : Nat) (s : Step (Replica ⊕ ω)) : Prop where
  silent : s.receipt? = none → s.after.observers = s.before.observers
  fed : ∀ receipt, s.receipt? = some receipt → Fed i receipt s.before s.after

theorem Told.feeds {receipt : BlockReceipt} {after : Chain (Replica ⊕ ω)} (told : Told base receipt c after)
    (founded : base.Sound) (sound : after.db.Sound) (mirrors : Mirrors i base c) : Fed i receipt c after := by
  obtain ⟨db, contents, announces, heard⟩ := told
  obtain ⟨copy, placed, same⟩ := mirrors
  rw [← get?_catalog founded, ← same] at announces
  refine ⟨copy, db, placed, contents, announces, heard, Observer.hear db (db.netChanges.notices receipt) copy, ?_, ?_⟩
  · rw [heard, List.getElem?_map, placed, Option.map_some, Replica.hear_inl]
  · rw [← findAny_congr contents] at announces
    refine SortedMap.ext_get? fun id => ?_
    rw [Replica.get?_hear announces, get?_catalog sound, findAny_congr contents]

variable {first last : Chain (Replica ⊕ ω)} {steps : List (Step (Replica ⊕ ω))} {number : UInt32}
  {time : Timestamp} {total : Int} {config : Config} {history : List BlockReceipt} {genesis : Genesis}
  {observers : List (Replica ⊕ ω)}

theorem Stands.projected (rests : Rests number time base) (stands : Stands base c)
    (holds : opening.IsTrue total config history c) (unfailing : ∀ o ∈ c.observers, Observer.Unfailing o)
    (mirrors : Mirrors i base c) (call : Call) (inTurn : call.inTurn c) :
    (∀ o ∈ (call.run c).2.observers, Observer.Unfailing o) ∧
      Mirrors i (Step.settle base ⟨c, call⟩) (call.run c).2 ∧ Step.Projected i ⟨c, call⟩ := by
  rcases stands.told holds unfailing call inTurn with ⟨receipt, given, told⟩ | ⟨none, same⟩
  · have sound : (call.run c).2.db.Sound := by
      rcases stands.call rests call inTurn with ⟨_, -, kept⟩ | ⟨none, -⟩
      · exact kept.rests.sound
      · rw [given] at none
        cases none
    have fed := told.feeds rests.sound sound mirrors
    refine ⟨told.unfailing unfailing, ?_, fun none => ?_, fun other same => ?_⟩
    · rw [Step.settle, Step.receipt?, given]
      obtain ⟨_, _, -, -, -, -, mirrors⟩ := fed
      exact mirrors
    · rw [Step.receipt?, given] at none
      cases none
    · rw [Step.receipt?, given] at same
      cases same
      exact fed
  · refine ⟨?_, ?_, fun _ => same, fun receipt given => ?_⟩
    · rw [same]
      exact unfailing
    · rw [Step.settle, Step.receipt?, none]
      unfold Mirrors
      rw [same]
      exact mirrors
    · rw [Step.receipt?, none] at given
      cases given

theorem Path.projected (path : Path first steps last) (rests : Rests number time first.db)
    (idle : first.Idle total) (running : first.halted = none)
    (unfailing : ∀ o ∈ first.observers, Observer.Unfailing o) (mirrors : Mirrors i first.db first) :
    (∀ o ∈ last.observers, Observer.Unfailing o) ∧ Mirrors i (settled first.db steps) last ∧
      ∀ s ∈ steps, s.Projected i := by
  induction path with
  | nil => exact ⟨unfailing, mirrors, fun s listed => absurd listed List.not_mem_nil⟩
  | @call steps last path call inTurn ih =>
    obtain ⟨unfailing, mirrors, earlier⟩ := ih
    have life := path.life rests idle.closed running
    obtain ⟨_, _, rests', -⟩ := life.head
    have holds := Chronicle.IsTrue.commits opening_carriedOn (.idle ⟨idle, rfl, trivial⟩) path.commits
    obtain ⟨unfailing, mirrors, here⟩ := life.stands.projected rests' holds unfailing mirrors call inTurn
    refine ⟨unfailing, ?_, fun s listed => ?_⟩
    · rw [settled_concat]
      exact mirrors
    · rcases List.mem_append.mp listed with listed | listed
      · exact earlier s listed
      · rw [List.mem_singleton.mp listed]
        exact here

theorem replicas_stay_equal (started : start config genesis observers = .ok first)
    (unfailing : ∀ o ∈ observers, Observer.Unfailing o)
    (copied : observers[i]? = some (.inl ⟨first.db.catalog⟩)) (path : Path first steps last) :
    Mirrors i (settled first.db steps) last ∧ (last.openBlock = none → Mirrors i last.db last) ∧
      ∀ s ∈ steps, s.Projected i := by
  obtain ⟨standing, level, closed, running⟩ := start_eq_ok started
  have rests := start_rests started
  have same : first.observers = observers := congrArg Chain.observers (start_applies started).2
  obtain ⟨-, mirrors, projected⟩ := path.projected rests ⟨closed, level, standing⟩ running (same ▸ unfailing)
    ⟨_, same ▸ copied, rfl⟩
  refine ⟨mirrors, fun ended => ?_, projected⟩
  cases (path.life rests closed running).stands with
  | between _ here => rwa [here]
  | within block working =>
    rw [working.opened] at ended
    cases ended

def listeners : List (Replica ⊕ Watcher) := [.inl ⟨founded.db.catalog⟩, .inr (.recorder [] none)]

def heard : Chain (Replica ⊕ Watcher) := ⟨founded.db, .permissive, listeners, none, none⟩

def denDays : List Call :=
  [.begin 1 ⟨7⟩, .operation openDen, .commit, .begin 2 ⟨9⟩, .operation closeDen, .commit, .begin 3 ⟨9⟩,
    .operation openDen, .abort]

theorem listeners_unfailing : ∀ o ∈ listeners, Observer.Unfailing o := by
  have recorder : Observer.Unfailing (Watcher.recorder [] none) :=
    Observer.unfailing_of (fun o => ∃ log, o = .recorder log none) ⟨_, rfl⟩ fun o given db notice => by
      obtain ⟨log, rfl⟩ := given
      exact ⟨rfl, _, rfl⟩
  intro o listed
  rcases List.mem_pair.mp listed with rfl | rfl
  · exact Replica.unfailing_inl _
  · exact Replica.unfailing_inr recorder

theorem denDays_path : Path heard (walk heard denDays).1 (walk heard denDays).2 :=
  .call (.call (.call (.call (.call (.call (.call (.call (.call .nil (.begin 1 ⟨7⟩) (by rfl)) (.operation openDen)
    (by rfl)) .commit (by rfl)) (.begin 2 ⟨9⟩) (by rfl)) (.operation closeDen) (by rfl)) .commit (by rfl))
    (.begin 3 ⟨9⟩) (by rfl)) (.operation openDen) (by rfl)) .abort (by rfl)

theorem replicas_stay_equal_den :
    start .permissive funded listeners = .ok heard ∧
    Path heard (walk heard denDays).1 (walk heard denDays).2 ∧
    heard.db.catalog.size = 9 ∧ (walk heard (denDays.take 3)).2.db.catalog.size = 12 ∧
    (walk heard denDays).2.db.catalog.size = 9 ∧ Mirrors 0 (walk heard denDays).2.db (walk heard denDays).2 ∧
    ∀ s ∈ (walk heard denDays).1, s.Projected 0 := by
  have started : start .permissive funded listeners = .ok heard := by rfl
  have copied : listeners[0]? = some (.inl ⟨heard.db.catalog⟩) := by rfl
  obtain ⟨-, between, projected⟩ := replicas_stay_equal started listeners_unfailing copied denDays_path
  exact ⟨started, denDays_path, by decide +kernel, by decide +kernel, by decide +kernel, between (by rfl), projected⟩

end Chain

end RoomLedger
