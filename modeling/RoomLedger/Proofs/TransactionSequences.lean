import RoomLedger.Proofs.ApprovalSafety
import RoomLedger.Proofs.CoveredChanges
import RoomLedger.Proofs.FaithfulReplay
import RoomLedger.Proofs.NestedSessions

namespace RoomLedger

open Database Change

variable {config : Config} {time : Timestamp} {results : List Outcome} {k : Kind} {id : ObjectId}

-- The object of the earlier operation that is meant. An id that means none stays as it is.
def ObjectId.meant (results : List Outcome) (id : ObjectId) : ObjectId :=
  if id.isRelative then (results[id.number]?.bind Outcome.primary?).getD id else id

namespace Operation

-- The sports of event groups are all that relative ids are for.
def mapSport (f : ObjectId → ObjectId) : Operation → Operation
  | createEventGroup p => createEventGroup { p with sport := f p.sport }
  | updateEventGroup p => updateEventGroup { p with newSport := p.newSport.map f }
  | op => op

def resolved (results : List Outcome) : Operation → Operation := mapSport (ObjectId.meant results)

end Operation

theorem ObjectId.meant_absolute (absolute : id.isRelative = false) : id.meant results = id := by
  unfold meant
  rw [absolute]
  rfl

theorem ObjectId.meant_relative (relative : id.isRelative = true) :
    id.meant results = (results[id.number]?.bind Outcome.primary?).getD id := if_pos relative

theorem Kind.not_isRelative (owned : k.owns id = true) : id.isRelative = false := by
  rw [(Kind.owns_iff k id).mp owned]
  cases k <;> rfl

namespace Context

variable {c : Context} {object : ObjectId}

def alone (c : Context) : Context := { c with results := [] }

theorem resolve_absolute (absolute : id.isRelative = false) : c.resolve id = .ok id := by
  unfold resolve
  rw [absolute]
  rfl

theorem resolve_relative (relative : id.isRelative = true) :
    c.resolve id = .ok object ↔ c.results[id.number]?.bind Outcome.primary? = some object := by
  unfold resolve
  rw [if_pos relative]
  cases c.results[id.number]? with
  | none => simp
  | some outcome => cases found : outcome.primary? <;> simp [found]

theorem resolveRecord_eq_ok_iff {row : k.Row} : c.resolveRecord k id = .ok row ↔
    ∃ object, c.resolve id = .ok object ∧ k.owns object = true ∧ c.db.get k object = .ok row := by
  unfold resolveRecord
  constructor
  · intro found
    obtain ⟨object, resolved, rest⟩ := exists_of_bind_eq_ok found
    split at rest
    · rename_i owned
      exact ⟨object, resolved, owned, of_mapError_eq_ok rest⟩
    · cases rest
  · rintro ⟨object, resolved, owned, got⟩
    rw [resolved]
    change (if k.owns object = true then (c.db.get k object).mapError Refusal.ofDatabase else _) = _
    rw [if_pos owned, got]
    rfl

-- Whoever puts the objects in place gets the same record, without the earlier outcomes.
theorem resolveRecord_meant {row : k.Row} :
    c.alone.resolveRecord k (id.meant c.results) = .ok row ↔ c.resolveRecord k id = .ok row := by
  rw [resolveRecord_eq_ok_iff, resolveRecord_eq_ok_iff]
  cases relative : id.isRelative with
  | false =>
    rw [ObjectId.meant_absolute relative, resolve_absolute relative, resolve_absolute relative]
    rfl
  | true =>
    rw [ObjectId.meant_relative relative]
    cases found : c.results[id.number]?.bind Outcome.primary? with
    | none =>
      constructor
      · rintro ⟨object, resolved, -⟩
        cases (resolve_relative relative).mp resolved
      · rintro ⟨object, resolved, -⟩
        rw [resolve_relative relative, found] at resolved
        cases resolved
    | some object =>
      have resolves : c.resolve id = .ok object := (resolve_relative relative).mpr found
      rw [resolves]
      constructor
      · rintro ⟨other, resolved, owned, got⟩
        cases absolute : object.isRelative with
        | false =>
          rw [Option.getD_some, resolve_absolute absolute] at resolved
          cases resolved
          exact ⟨object, rfl, owned, got⟩
        | true => cases (resolve_relative absolute).mp resolved
      · rintro ⟨_, same, owned, got⟩
        cases same
        exact ⟨object, resolve_absolute (Kind.not_isRelative owned), owned, got⟩

end Context

theorem bind_eq_ok_congr {ε α β : Type} {x y : Except ε α} {f : α → Except ε β} {b : β}
    (same : ∀ a, x = .ok a ↔ y = .ok a) : (x >>= f) = .ok b ↔ (y >>= f) = .ok b := by
  have follows : ∀ {x y : Except ε α}, (∀ a, x = .ok a → y = .ok a) → (x >>= f) = .ok b → (y >>= f) = .ok b := by
    intro x y same run
    obtain ⟨a, made, rest⟩ := exists_of_bind_eq_ok run
    rw [same a made]
    exact rest
  exact ⟨follows fun a => (same a).mp, follows fun a => (same a).mpr⟩

namespace Rule

variable {c : Context}

theorem createEventGroup_meant {p : CreateEventGroup} {plan : createEventGroup.Plan} :
    createEventGroup.examine c.alone { p with sport := p.sport.meant c.results } = .ok plan ↔
      createEventGroup.examine c p = .ok plan :=
  bind_eq_ok_congr fun _ => Context.resolveRecord_meant

theorem updateEventGroup_meant {p : UpdateEventGroup} {plan : updateEventGroup.Plan} :
    updateEventGroup.examine c.alone { p with newSport := p.newSport.map (·.meant c.results) } = .ok plan ↔
      updateEventGroup.examine c p = .ok plan := by
  obtain ⟨fee, group, newSport, newName⟩ := p
  change (c.get group >>= fun _ => (newSport.map (·.meant c.results)).mapM _) = _ ↔
    (c.get group >>= fun _ => newSport.mapM _) = _
  cases c.get group with
  | error refusal => rfl
  | ok row =>
    cases newSport with
    | none => rfl
    | some id => exact bind_eq_ok_congr fun _ => bind_eq_ok_congr fun _ => Context.resolveRecord_meant

end Rule

namespace Operation

variable {c : Context} {op : Operation} {f : ObjectId → ObjectId}

def sports : Operation → List ObjectId
  | createEventGroup p => [p.sport]
  | updateEventGroup p => p.newSport.toList
  | _ => []

theorem sports_mapSport (f : ObjectId → ObjectId) (op : Operation) : (op.mapSport f).sports = op.sports.map f := by
  cases op with
  | updateEventGroup p => cases moved : p.newSport <;> simp only [mapSport, sports, moved] <;> rfl
  | _ => rfl

theorem checkSport_of_validate (validated : op.validate = .ok ()) : ∀ id ∈ op.sports, checkSport id = .ok () := by
  intro id member
  cases op with
  | createEventGroup p =>
    obtain ⟨_, -, checked⟩ := exists_of_bind_eq_ok (validate_eq_ok validated)
    cases List.mem_singleton.mp member
    exact checked
  | updateEventGroup p =>
    obtain ⟨_, -, rest⟩ := exists_of_bind_eq_ok (validate_eq_ok validated)
    obtain ⟨_, -, checked⟩ := exists_of_bind_eq_ok rest
    rw [Option.mem_toList.mp member] at checked
    exact checked
  | _ => cases member

theorem validate_mapSport (checked : ∀ id ∈ op.sports, checkSport id = .ok ())
    (checked' : ∀ id ∈ op.sports, checkSport (f id) = .ok ()) : (op.mapSport f).validate = op.validate := by
  cases op with
  | createEventGroup p =>
    have sport := checked p.sport (List.mem_singleton.mpr rfl)
    have sport' := checked' p.sport (List.mem_singleton.mpr rfl)
    simp only [mapSport, validate, checkPayload, sport, sport']
    rfl
  | updateEventGroup p =>
    cases moved : p.newSport with
    | none => simp only [mapSport, validate, checkPayload, moved]; rfl
    | some id =>
      have sport := checked id (by rw [sports, moved]; exact List.mem_singleton.mpr rfl)
      have sport' := checked' id (by rw [sports, moved]; exact List.mem_singleton.mpr rfl)
      simp only [mapSport, validate, checkPayload, moved, Option.map_some, Option.forM, sport, sport']
      rfl
  | _ => rfl

theorem checkSport_of_meant (checked : checkSport (id.meant results) = .ok ()) : checkSport id = .ok () := by
  cases relative : id.isRelative with
  | false => rwa [ObjectId.meant_absolute relative] at checked
  | true =>
    unfold checkSport
    rw [relative]
    rfl

theorem checkSport_meant {row : Sport} (found : c.resolveRecord .sport id = .ok row) :
    checkSport (id.meant c.results) = .ok () := by
  obtain ⟨object, resolved, owned, -⟩ := Context.resolveRecord_eq_ok_iff.mp (Context.resolveRecord_meant.mpr found)
  cases relative : (id.meant c.results).isRelative with
  | false =>
    rw [Context.resolve_absolute relative] at resolved
    cases resolved
    unfold checkSport
    rw [owned, Bool.or_true]
    rfl
  | true => cases (Context.resolve_relative relative).mp resolved

theorem sports_found {plan : op.Plan} (examined : op.examine c = .ok plan) :
    ∀ id ∈ op.sports, ∃ row, c.resolveRecord .sport id = .ok row := by
  intro id member
  cases op with
  | createEventGroup p =>
    obtain ⟨row, found, -⟩ := exists_of_bind_eq_ok examined
    cases List.mem_singleton.mp member
    exact ⟨row, found⟩
  | updateEventGroup p =>
    obtain ⟨_, -, planned⟩ := exists_of_bind_eq_ok examined
    change p.newSport.mapM _ = _ at planned
    rw [Option.mem_toList.mp member] at planned
    obtain ⟨_, resolved, -⟩ := exists_of_bind_eq_ok planned
    obtain ⟨row, found, -⟩ := exists_of_bind_eq_ok resolved
    exact ⟨row, found⟩
  | _ => cases member

theorem scheduledFee_resolved (op : Operation) (results : List Outcome) (schedule : FeeSchedule) :
    (op.resolved results).scheduledFee schedule = op.scheduledFee schedule := by
  cases op <;> rfl

-- With the objects in place an operation is approved alone if it is approved after the others.
theorem approve_resolved {approval : op.Approval} (approved : op.approve c = .ok approval) :
    ∃ approval' : (op.resolved c.results).Approval, (op.resolved c.results).approve c.alone = .ok approval' ∧
      ∀ time fee, (op.resolved c.results).settle time fee (some approval') = op.settle time fee (some approval) := by
  cases op with
  | createEventGroup p =>
    rw [approve_eq_ok_iff] at approved
    exact ⟨⟨approval.payer, approval.plan⟩,
      approve_eq_ok_iff.mpr ⟨approved.1, Rule.createEventGroup_meant.mpr approved.2⟩, fun _ _ => rfl⟩
  | updateEventGroup p =>
    rw [approve_eq_ok_iff] at approved
    exact ⟨⟨approval.payer, approval.plan⟩,
      approve_eq_ok_iff.mpr ⟨approved.1, Rule.updateEventGroup_meant.mpr approved.2⟩, fun _ _ => rfl⟩
  | _ => exact ⟨approval, approved, fun _ _ => rfl⟩

theorem approve_of_resolved {approval : (op.resolved c.results).Approval}
    (approved : (op.resolved c.results).approve c.alone = .ok approval) :
    ∃ approval' : op.Approval, op.approve c = .ok approval' ∧
      ∀ time fee, op.settle time fee (some approval') = (op.resolved c.results).settle time fee (some approval) := by
  cases op with
  | createEventGroup p =>
    rw [approve_eq_ok_iff] at approved
    exact ⟨⟨approval.payer, approval.plan⟩,
      approve_eq_ok_iff.mpr ⟨approved.1, Rule.createEventGroup_meant.mp approved.2⟩, fun _ _ => rfl⟩
  | updateEventGroup p =>
    rw [approve_eq_ok_iff] at approved
    exact ⟨⟨approval.payer, approval.plan⟩,
      approve_eq_ok_iff.mpr ⟨approved.1, Rule.updateEventGroup_meant.mp approved.2⟩, fun _ _ => rfl⟩
  | _ => exact ⟨approval, approved, fun _ _ => rfl⟩

theorem validate_of_resolved (validated : (op.resolved results).validate = .ok ()) : op.validate = .ok () := by
  have checked : ∀ id ∈ op.sports, checkSport (id.meant results) = .ok () := by
    intro id member
    refine checkSport_of_validate validated (id.meant results) ?_
    rw [resolved, sports_mapSport]
    exact List.mem_map_of_mem member
  rw [← validated]
  exact (validate_mapSport (fun id member => checkSport_of_meant (checked id member)) checked).symm

theorem resolved_covers (op : Operation) (config : Config) (time : Timestamp) (results : List Outcome) :
    ((op.resolved results).perform config time []).Covers (op.perform config time results) := by
  refine covers_of_accepted (scheduledFee_resolved op results) fun db fee approval validated approved => ?_
  have found := sports_found (approve_eq_ok_iff.mp approved).2
  obtain ⟨approval', approved', settled⟩ := approve_resolved approved
  refine ⟨?_, approval', approved', settled time fee⟩
  rw [← validated]
  refine validate_mapSport (checkSport_of_validate validated) fun id member => ?_
  obtain ⟨row, resolved⟩ := found id member
  exact checkSport_meant resolved

theorem covers_resolved (op : Operation) (config : Config) (time : Timestamp) (results : List Outcome) :
    (op.perform config time results).Covers ((op.resolved results).perform config time []) := by
  refine covers_of_accepted (fun schedule => (scheduledFee_resolved op results schedule).symm) ?_
  intro db fee approval validated approved
  obtain ⟨approval', approved', settled⟩ :=
    approve_of_resolved (c := ⟨db, config, time, fee, results⟩) approved
  exact ⟨validate_of_resolved validated, approval', approved', settled time fee⟩

end Operation

namespace Transaction

variable {db after : Database} {saved : List Database}

def performAlone (config : Config) (time : Timestamp) (results : List Outcome) (op : Operation) :
    Change ChainError (List Outcome) := do
  return results ++ [← nested ((op.resolved results).perform config time [])]

theorem performNext_merge (recalls : db.Recalls saved) (inside : 1 < db.depth) (op : Operation) :
    performNext config time results op (db.merge 0) =
      ((performNext config time results op db).1, (performNext config time results op db).2.merge 0) := by
  unfold performNext
  rw [bind_apply, bind_apply, nested_merge (op.perform_uniform config time results) recalls inside]
  cases nested (op.perform config time results) db with
  | mk result after => cases result <;> rfl

theorem operations_merge (ops : List Operation) (recalls : db.Recalls saved) (inside : 1 < db.depth) :
    ops.foldlM (performNext config time) results (db.merge 0) =
      ((ops.foldlM (performNext config time) results db).1,
        (ops.foldlM (performNext config time) results db).2.merge 0) := by
  induction ops generalizing db results with
  | nil => rfl
  | cons op rest ih =>
    have continues := performNext_continuing config time results op db recalls.sound
    rw [List.foldlM_cons, bind_apply, bind_apply, performNext_merge recalls inside]
    cases made : performNext config time results op db with
    | mk result mid =>
      rw [made] at continues
      cases result with
      | error e => rfl
      | ok next => exact ih (recalls.continues continues) (continues.depth ▸ inside)

-- Inside of a session a transaction does what its operations do, if they all succeed.
theorem perform_eq_ok_iff {t : Transaction} (recalls : db.Recalls saved) (opened : 0 < db.depth) :
    t.perform config time db = (.ok results, after) ↔
      t.operations.foldlM (performNext config time) [] db = (.ok results, after) := by
  have sound := recalls.sound
  have inside : 1 < db.push.depth := Nat.succ_lt_succ opened
  have begun : db.push.Recalls (db :: saved) := .session recalls (.refl (push_sound sound))
  have merged : t.operations.foldlM (performNext config time) [] (db.push.merge 0) =
      ((t.operations.foldlM (performNext config time) [] db.push).1,
        (t.operations.foldlM (performNext config time) [] db.push).2.merge 0) :=
    operations_merge t.operations begun inside
  rw [merge_push sound opened] at merged
  rw [merged]
  rcases nested_cases (t.operations_continuing config time) sound with
    ⟨given, mid, last, made, continues, committed, whole, -⟩ | ⟨e, mid, made, whole⟩
  · have deep : 1 < mid.depth := continues.depth ▸ inside
    rw [commit_eq_merge (continues.sound (push_sound sound)) deep] at committed
    cases committed
    rw [perform, whole, made]
  · rw [perform, whole, made]
    constructor <;> intro impossible <;> cases impossible

-- It does not matter whether the earlier outcomes are at hand, or the objects have been put in place.
theorem operations_alone (ops : List Operation) : ops.foldlM (performNext config time) [] db = (.ok results, after) ↔
    ops.foldlM (performAlone config time) [] db = (.ok results, after) :=
  ⟨(Covers.foldlM (fun results op => (op.resolved_covers config time results).nested.bind fun _ => .refl _) ops [])
      db results after,
    (Covers.foldlM (fun results op => (op.covers_resolved config time results).nested.bind fun _ => .refl _) ops [])
      db results after⟩

theorem operations_valid {ops : List Operation} {done : List Outcome}
    (run : ops.foldlM (performNext config time) done db = (.ok results, after)) : ∀ op ∈ ops, op.validate = .ok () := by
  induction ops generalizing db done with
  | nil => exact fun _ none => nomatch none
  | cons op rest ih =>
    rw [List.foldlM_cons] at run
    obtain ⟨next, mid, made, run⟩ := bind_eq_ok run
    obtain ⟨outcome, _, performed, _⟩ := bind_eq_ok made
    exact List.forall_mem_cons.mpr ⟨Operation.validate_of_perform performed, ih run⟩

theorem forM_validate {ops : List Operation} (valid : ∀ op ∈ ops, op.validate = .ok ()) :
    ops.forM Operation.validate = .ok () := by
  induction ops with
  | nil => rfl
  | cons op rest ih =>
    rw [List.forall_mem_cons] at valid
    change (op.validate >>= fun _ => rest.forM Operation.validate) = _
    rw [valid.1]
    exact ih valid.2

-- What is looked at before the first operation is no more than what is looked at before each.
theorem approve_of_valid {t : Transaction} (some : t.operations ≠ []) (fits : t.operations.length ≤ maxOperations)
    (signed : config.enforceAuthorities = true → t.missing = []) (valid : ∀ op ∈ t.operations, op.validate = .ok ()) :
    t.approve config = .ok () := by
  have validated : t.validate = .ok () := by
    unfold validate
    rw [if_neg (by simpa using some), if_neg (Nat.not_lt.mpr fits)]
    exact forM_validate valid
  unfold approve
  rw [validated]
  by_cases enforced : config.enforceAuthorities = true
  · refine (if_pos enforced).trans ?_
    rw [signed enforced]
  · exact if_neg enforced

end Transaction

namespace Chain

open Transaction

variable {ω : Type} {total : Int} {base db : Database} {c first : Chain ω} {block : OpenBlock}

def pushNext (results : List Outcome) (op : Operation) : Action ω (List Outcome) := do
  return results ++ [← pushOperation (op.resolved results)]

def pushEach (ops : List Operation) : Action ω (List Outcome) := ops.foldlM pushNext []

theorem Busy.pushEach (busy : c.Busy total base) (opened : c.openBlock = some block) (ops : List Operation)
    (done : List Outcome) : (∃ last, ops.foldlM pushNext done c = (.ok results, last) ∧ last.db = db) ↔
      ops.foldlM (performAlone c.config block.receipt.time) done c.db = (.ok results, db) := by
  induction ops generalizing c block done with
  | nil =>
    constructor
    · rintro ⟨last, run, rfl⟩
      cases run
      rfl
    · intro run
      cases run
      exact ⟨c, rfl, rfl⟩
  | cons op rest ih =>
    have busy' := (busy.pushOperation (op.resolved done)).2
    rw [List.foldlM_cons, List.foldlM_cons, bind_apply, Change.bind_apply, pushNext, performAlone, bind_apply,
      Change.bind_apply]
    -- A push is answered as the operation is, and the rest starts from what it left.
    rcases busy.pushOperation_cases opened (op.resolved done) with
      ⟨outcome, after, performed, answer⟩ | ⟨cause, failed, answer⟩
    · rw [answer] at busy' ⊢
      rw [performed]
      exact ih busy' rfl (done ++ [outcome])
    · rw [answer, failed]
      constructor
      · rintro ⟨last, impossible, -⟩
        cases impossible
      · intro impossible
        cases impossible

-- It leaves the same database: what was done in the session of the transaction has become part of
-- the session around it.
theorem transactions_are_sequences [Observer ω] {genesis : Genesis} {observers : List ω}
    {answers : List (Except ChainError Unit)} (started : start config genesis observers = .ok first)
    (run : Run first answers c) (opened : c.openBlock.isSome) {t : Transaction} (some : t.operations ≠ [])
    (fits : t.operations.length ≤ Transaction.maxOperations)
    (signed : c.config.enforceAuthorities = true → t.missing = []) (results : List Outcome) (db : Database) :
    (∃ last, pushTransaction t c = (.ok results, last) ∧ last.db = db) ↔
      ∃ last, pushEach t.operations c = (.ok results, last) ∧ last.db = db := by
  obtain ⟨block, opened⟩ := Option.isSome_iff_exists.mp opened
  cases run_steady (start_steady started).1 run with
  | idle idle =>
    rw [idle.closed] at opened
    cases opened
  | @busy base busy =>
    have recalls : c.db.Recalls [base] := .session (.outside busy.inside.sound busy.level) busy.inside.continues
    have deep : 0 < c.db.depth := by rw [recalls.depth]; exact Nat.one_pos
    have each : t.perform c.config block.receipt.time c.db = (.ok results, db) ↔
        ∃ last, pushEach t.operations c = (.ok results, last) ∧ last.db = db :=
      (perform_eq_ok_iff recalls deep).trans
        ((operations_alone t.operations).trans (busy.pushEach opened t.operations []).symm)
    refine Iff.trans ?_ each
    rcases busy.pushTransaction_cases opened t with ⟨given, after, approved, performed, answer⟩ | ⟨cause, failed, answer⟩
    · rw [answer, performed]
      constructor
      · rintro ⟨last, same, rfl⟩
        cases same
        rfl
      · intro same
        cases same
        exact ⟨_, rfl, rfl⟩
    · rw [answer]
      constructor
      · rintro ⟨last, impossible, -⟩
        cases impossible
      · intro performed
        have valid := operations_valid ((perform_eq_ok_iff recalls deep).mp performed)
        rw [failed (approve_of_valid some fits signed valid)] at performed
        cases performed

-- Two sports and an event group of the second, which had no id when the transaction was signed.
def sponsored : Genesis := .ofAccounts ⟨0⟩ [⟨Genesis.witnessName, 1000000000⟩]

def policed : Config := ⟨.wholeBlock, true, 64, 16⟩

def arena : Chain Watcher := ⟨(sponsored.apply empty.registerAll).2, policed, [.idle], none, none⟩

def arenaOpen : Chain Watcher := (beginBlock 1 ⟨7⟩ arena).2

def season : Transaction :=
  let named (name : String) : LocalizedName := ⟨.ofList [("en", name)]⟩
  Transaction.signedBy ⟨[.createSport ⟨.core 100000, named "chess"⟩, .createSport ⟨.core 100000, named "go"⟩,
    .createEventGroup ⟨.core 100000, named "masters", ⟨0, 7, 1⟩⟩], .empty⟩ witnessAccount

theorem transactions_are_sequences_season :
    start policed sponsored [Watcher.idle] = .ok arena ∧ Run arena [.ok ()] arenaOpen ∧
      arenaOpen.openBlock.isSome ∧ season.operations ≠ [] ∧ season.operations.length ≤ Transaction.maxOperations ∧
      (arenaOpen.config.enforceAuthorities = true → season.missing = []) ∧
      ∃ results last last', pushTransaction season arenaOpen = (.ok results, last) ∧
        pushEach season.operations arenaOpen = (.ok results, last') ∧ last'.db = last.db ∧
        (last.db.rows .eventGroup).map EventGroup.sport = [⟨1⟩] := by
  have started : start policed sponsored [Watcher.idle] = .ok arena := by rfl
  have run : Run arena [.ok ()] arenaOpen := .call .nil (.begin 1 ⟨7⟩) (by rfl)
  have opened : arenaOpen.openBlock.isSome := by rfl
  have some : season.operations ≠ [] := by decide
  have fits : season.operations.length ≤ Transaction.maxOperations := by decide
  have signed : arenaOpen.config.enforceAuthorities = true → season.missing = [] := fun _ => by decide
  have taken : (pushTransaction season arenaOpen).1.toOption.isSome := by decide +kernel
  have filed : ((pushTransaction season arenaOpen).2.db.rows .eventGroup).map EventGroup.sport = [⟨1⟩] := by
    decide +kernel
  refine ⟨started, run, opened, some, fits, signed, ?_⟩
  cases pushed : pushTransaction season arenaOpen with
  | mk result last =>
    rw [pushed] at taken filed
    cases result with
    | error e => cases taken
    | ok results =>
      obtain ⟨last', each, same⟩ :=
        (transactions_are_sequences started run opened some fits signed results last.db).mp ⟨last, pushed, rfl⟩
      exact ⟨results, last, last', rfl, each, same, filed⟩

end Chain

end RoomLedger
