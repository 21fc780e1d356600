import RoomLedger.Proofs.ContentReads
import RoomLedger.Proofs.FailureTraces
import RoomLedger.Proofs.SnapshotRefinement

namespace RoomLedger

open Database

variable {ε δ α β : Type} {c other : Context} {k : Kind}

-- The other context has the same records, and its settings are the same where rules look at them.
structure Context.Alike (c other : Context) : Prop where
  contents : other.db.contents = c.db.contents
  names : other.config.maxRoomName = c.config.maxRoomName
  members : other.config.maxParticipants = c.config.maxParticipants
  fee : other.fee = c.fee
  results : other.results = c.results

namespace Context.Alike

variable (alike : c.Alike other)

include alike

theorem table (k : Kind) : other.db.contents.get k = c.db.contents.get k := by rw [alike.contents]

theorem get (id : RecordId k) : other.get id = c.get id := by
  rw [Context.get, Context.get, get_congr (alike.table k)]

theorem resolveRecord (k : Kind) (id : ObjectId) : other.resolveRecord k id = c.resolveRecord k id := by
  have resolve : other.resolve id = c.resolve id := by rw [Context.resolve, Context.resolve, alike.results]
  unfold Context.resolveRecord
  simp only [resolve, get_congr (alike.table k)]

theorem requireHolding (owner : AccountId) (asset : AssetId) (required : Shares) :
    other.requireHolding owner asset required = c.requireHolding owner asset required := by
  rw [Context.requireHolding, Context.requireHolding, holding_congr (alike.table .balance)]

theorem ownedRoom (room : RoomId) (owner : AccountId) : other.ownedRoom room owner = c.ownedRoom room owner := by
  rw [Context.ownedRoom, Context.ownedRoom, alike.get]

theorem checkRoomName (owner : AccountId) (name : String) :
    other.checkRoomName owner name = c.checkRoomName owner name := by
  rw [Context.checkRoomName, Context.checkRoomName, alike.names, roomNamed?_congr (alike.table .room)]

end Context.Alike

namespace Operation

theorem examine_alike (alike : c.Alike other) (op : Operation) : op.examine other = op.examine c := by
  have account := accountNamed?_congr (alike.table .account)
  have participant := participantIn?_congr (alike.table .participant)
  have participants := participantsOf_congr (alike.table .participant)
  have keys := keysOf_congr (alike.table .epochKey)
  have groups := startingWith_congr (alike.table .eventGroup)
  cases op <;>
    (simp only [examine, kind, payload, OperationKind.rule, Rule.transfer, Rule.createAccount, Rule.createRoom,
      Rule.updateRoom, Rule.addParticipant, Rule.removeParticipant, Rule.rotateKey, Rule.deleteRoom,
      Rule.createSport, Rule.updateSport, Rule.deleteSport, Rule.createEventGroup, Rule.updateEventGroup,
      Rule.deleteEventGroup, alike.get, alike.requireHolding, alike.ownedRoom, alike.checkRoomName,
      alike.resolveRecord, alike.fee, alike.members, account, participant, participants, keys, groups]
     rfl)

theorem approve_alike (alike : c.Alike other) (op : Operation) : op.approve other = op.approve c := by
  simp only [approve, alike.get, alike.requireHolding, alike.fee, examine_alike alike]

end Operation

namespace Database

variable {db twin : Database}

theorem edit_alike (call : Call) {change : Change DbError α} {answer : α → Option AnyRow}
    (injective : Function.Injective answer)
    (runs : ∀ db, call.run db = ((change db).1.map answer, (change db).2))
    (copies : ∀ db, Copying.step call (db.copying []) = ((call.run db).1, (call.run db).2.copying []))
    (same : twin.contents = db.contents) :
    (change twin).1 = (change db).1 ∧ (change twin).2.contents = (change db).2.contents := by
  have alike : twin.copying [] = db.copying [] := by rw [copying, copying, same]
  have copied := (copies twin).symm.trans ((congrArg _ alike).trans (copies db))
  rw [runs, runs] at copied
  obtain ⟨answers, tables⟩ := Prod.mk.inj copied
  refine ⟨?_, congrArg Copying.current tables⟩
  generalize (change twin).1 = a at answers
  generalize (change db).1 = b at answers
  cases a with
  | error e => cases b <;> cases answers; rfl
  | ok a =>
    cases b with
    | error e => cases answers
    | ok b => exact congrArg Except.ok (injective (Except.ok.inj answers))

theorem anyRow_injective : Function.Injective fun row : k.Row => some (⟨k, row⟩ : AnyRow) := by
  intro a b same
  cases same
  rfl

theorem create_alike (fill : k.Row → k.Row) (same : twin.contents = db.contents) :
    (create k fill twin).1 = (create k fill db).1 ∧
      (create k fill twin).2.contents = (create k fill db).2.contents :=
  edit_alike (.create k fill) anyRow_injective (fun _ => rfl) (fun db => create_copying db [] fill) same

theorem modify_alike (id : ObjectId) (change : k.Row → k.Row) (same : twin.contents = db.contents) :
    (modify k id change twin).1 = (modify k id change db).1 ∧
      (modify k id change twin).2.contents = (modify k id change db).2.contents :=
  edit_alike (.modify k id change) (fun _ _ _ => rfl) (fun _ => rfl)
    (fun db => modify_copying db [] id change) same

theorem remove_alike (id : ObjectId) (same : twin.contents = db.contents) :
    (remove k id twin).1 = (remove k id db).1 ∧ (remove k id twin).2.contents = (remove k id db).2.contents :=
  edit_alike (.remove k id) anyRow_injective (fun _ => rfl) (fun db => remove_copying db [] id) same

-- A relation of databases that hold the same, which edits keep.
structure Simulation (related : Database → Database → Prop) : Prop where
  contents : ∀ db twin, related db twin → twin.contents = db.contents
  create : ∀ db twin (k : Kind) (fill : k.Row → k.Row), related db twin →
    related (create k fill db).2 (create k fill twin).2
  modify : ∀ db twin (k : Kind) id (change : k.Row → k.Row), related db twin →
    related (modify k id change db).2 (modify k id change twin).2
  remove : ∀ db twin (k : Kind) id, related db twin → related (remove k id db).2 (remove k id twin).2

end Database

namespace Change

-- What an operation examines is read from the tables, and all that it writes are edits; so it
-- answers alike on two databases that hold the same.
def Uniform (change : Change ε α) : Prop :=
  ∀ related, Simulation related → ∀ db twin, related db twin →
    (change twin).1 = (change db).1 ∧ related (change db).2 (change twin).2

theorem uniform_of_read (read : Database → Except ε α)
    (reads : ∀ db twin : Database, twin.contents = db.contents → read twin = read db) :
    Uniform (fun db => (read db, db) : Change ε α) :=
  fun _ simulation db twin given => ⟨reads db twin (simulation.contents db twin given), given⟩

theorem pure_uniform (a : α) : Uniform (pure a : Change ε α) := uniform_of_read _ fun _ _ _ => rfl

theorem throw_uniform (e : ε) : Uniform (throw e : Change ε α) := uniform_of_read _ fun _ _ _ => rfl

theorem bind_uniform {change : Change ε α} {next : α → Change ε β} (first : change.Uniform)
    (later : ∀ a, (next a).Uniform) : (change >>= next).Uniform := by
  intro related simulation db twin given
  obtain ⟨answers, kept⟩ := first related simulation db twin given
  rw [bind_apply, bind_apply]
  cases made : change db with
  | mk result mid =>
    cases made' : change twin with
    | mk result' mid' =>
      rw [made, made'] at answers kept
      cases answers
      cases result with
      | error e => exact ⟨rfl, kept⟩
      | ok a => exact later a related simulation mid mid' kept

theorem adapt_uniform (f : ε → δ) {change : Change ε α} (uniform : change.Uniform) :
    Uniform (change.adapt f) := by
  intro related simulation db twin given
  obtain ⟨answers, kept⟩ := uniform related simulation db twin given
  rw [adapt_apply, adapt_apply, answers]
  exact ⟨rfl, kept⟩

theorem forM_uniform {act : α → Change ε PUnit} (each : ∀ a, (act a).Uniform) (list : List α) :
    (list.forM act).Uniform := by
  induction list with
  | nil => exact pure_uniform _
  | cons a rest ih => exact bind_uniform (each a) fun _ => ih

theorem mapM_uniform {act : α → Change ε β} (each : ∀ a, (act a).Uniform) (list : List α) :
    (list.mapM act).Uniform := by
  induction list with
  | nil => exact pure_uniform _
  | cons a rest ih =>
    rw [List.mapM_cons]
    exact bind_uniform (each a) fun _ => bind_uniform ih fun _ => pure_uniform _

theorem create_uniform (fill : k.Row → k.Row) : (create k fill).Uniform :=
  fun _ simulation db twin given => ⟨(create_alike fill (simulation.contents db twin given)).1,
    simulation.create db twin k fill given⟩

theorem modify_uniform (id : ObjectId) (change : k.Row → k.Row) : (modify k id change).Uniform :=
  fun _ simulation db twin given => ⟨(modify_alike id change (simulation.contents db twin given)).1,
    simulation.modify db twin k id change given⟩

theorem remove_uniform (id : ObjectId) : (remove k id).Uniform :=
  fun _ simulation db twin given => ⟨(remove_alike id (simulation.contents db twin given)).1,
    simulation.remove db twin k id given⟩

theorem Uniform.continuing {change : Change ε α} (uniform : change.Uniform) : change.Continuing := by
  intro base sound
  refine (uniform (fun db twin => twin = db ∧ base.Continues db) ⟨?_, ?_, ?_, ?_⟩ base base ⟨rfl, .refl sound⟩).2.2
  · rintro db _ ⟨rfl, -⟩
    rfl
  · rintro db _ k fill ⟨rfl, continues⟩
    exact ⟨rfl, continues.trans (create_continues (continues.sound sound) fill)⟩
  · rintro db _ k id change ⟨rfl, continues⟩
    exact ⟨rfl, continues.trans (modify_continues (continues.sound sound) id change)⟩
  · rintro db _ k id ⟨rfl, continues⟩
    exact ⟨rfl, continues.trans (remove_continues (continues.sound sound) id)⟩

end Change

namespace Write

open Change

variable {operation : String}

theorem create_uniform (fill : k.Row → k.Row) : (Write.create operation k fill).Uniform :=
  adapt_uniform _ (Change.create_uniform fill)

theorem modify_uniform (id : RecordId k) (change : k.Row → k.Row) : (Write.modify operation id change).Uniform :=
  adapt_uniform _ (Change.modify_uniform id.id change)

theorem remove_uniform (id : RecordId k) : (Write.remove operation id).Uniform :=
  bind_uniform (adapt_uniform _ (Change.remove_uniform id.id)) fun _ => pure_uniform _

theorem removeAll_uniform (ids : List (RecordId k)) : (ids.forM (Write.remove operation)).Uniform :=
  forM_uniform remove_uniform ids

-- What follows may look at the database, as long as it sees no more than tables.
theorem current_uniform {next : Database → Change Breach β}
    (reads : ∀ db twin : Database, twin.contents = db.contents → next twin = next db)
    (later : ∀ db, (next db).Uniform) : (Write.current >>= next).Uniform := by
  intro related simulation db twin given
  rw [bind_apply, bind_apply]
  change (next twin twin).1 = (next db db).1 ∧ related (next db db).2 (next twin twin).2
  rw [reads db twin (simulation.contents db twin given)]
  exact later db related simulation db twin given

theorem adjust_uniform (owner : AccountId) (asset : AssetId) (delta : Shares) :
    (Write.adjust operation owner asset delta).Uniform := by
  refine current_uniform (fun db other same => ?_) fun db => ?_
  · simp only [balance?_congr (congrArg (PerKind.get · .balance) same)]
  · dsimp only
    split
    · exact throw_uniform _
    · split
      · exact modify_uniform _ _
      · exact bind_uniform (create_uniform _) fun _ => pure_uniform _

theorem epochKey_uniform (room : RoomId) (epoch : UInt32) (account : AccountId) (key : String) :
    (Write.epochKey operation room epoch account key).Uniform := by
  refine current_uniform (fun db other same => ?_) fun db => ?_
  · simp only [epochKey?_congr (congrArg (PerKind.get · .epochKey) same)]
  · split
    · exact bind_uniform (modify_uniform _ _) fun _ => pure_uniform _
    · exact bind_uniform (create_uniform _) fun _ => pure_uniform _

end Write

open Change Write

theorem Rule.updateSport_uniform (time : Timestamp) (plan : updateSport.Plan) (p : UpdateSport) :
    (updateSport.carryOut time plan p).Uniform := by
  refine bind_uniform ?_ fun _ => pure_uniform _
  cases p.newName with
  | none => exact pure_uniform _
  | some name => exact Write.modify_uniform _ _

namespace Operation

theorem carryOut_uniform (op : Operation) (time : Timestamp) (plan : op.Plan) : (op.carryOut time plan).Uniform := by
  cases op with
  | transfer p =>
    exact bind_uniform (adjust_uniform _ _ _) fun _ => bind_uniform (adjust_uniform _ _ _) fun _ => pure_uniform _
  | createAccount p | createSport p | createEventGroup p =>
    exact bind_uniform (create_uniform _) fun _ => pure_uniform _
  | createRoom p =>
    exact bind_uniform (create_uniform _) fun _ => bind_uniform (create_uniform _) fun _ =>
      bind_uniform (epochKey_uniform _ _ _ _) fun _ => pure_uniform _
  | updateRoom p | updateEventGroup p => exact bind_uniform (modify_uniform _ _) fun _ => pure_uniform _
  | addParticipant p =>
    refine bind_uniform (create_uniform _) fun _ => bind_uniform (epochKey_uniform _ _ _ _) fun _ => ?_
    refine bind_uniform (forM_uniform (fun past => ?_) _) fun _ => pure_uniform _
    exact bind_uniform (epochKey_uniform _ _ _ _) fun _ => pure_uniform _
  | removeParticipant p | deleteEventGroup p => exact bind_uniform (remove_uniform _) fun _ => pure_uniform _
  | rotateKey p =>
    refine bind_uniform (modify_uniform _ _) fun _ => ?_
    refine bind_uniform (mapM_uniform (fun member => ?_) _) fun _ => pure_uniform _
    dsimp only
    split
    · exact throw_uniform _
    · exact bind_uniform (modify_uniform _ _) fun _ => epochKey_uniform _ _ _ _
  | deleteRoom p =>
    exact bind_uniform (removeAll_uniform _) fun _ => bind_uniform (removeAll_uniform _) fun _ =>
      bind_uniform (remove_uniform _) fun _ => pure_uniform _
  | updateSport p => exact Rule.updateSport_uniform time plan p
  | deleteSport p =>
    exact bind_uniform (removeAll_uniform _) fun _ => bind_uniform (remove_uniform _) fun _ => pure_uniform _

theorem charge_uniform (name : String) (payer : AccountId) (fee : Shares) : (charge name payer fee).Uniform := by
  unfold charge
  split
  · refine bind_uniform (adjust_uniform _ _ _) fun _ => ?_
    refine bind_uniform (adapt_uniform _ (uniform_of_read _ fun db other same => ?_)) fun asset => modify_uniform _ _
    exact get_congr (congrArg (PerKind.get · .asset) same) _
  · exact pure_uniform _

theorem settle_uniform (op : Operation) (time : Timestamp) (fee : Shares) (approval : Option op.Approval) :
    (op.settle time fee approval).Uniform := by
  unfold settle
  cases approval with
  | none => exact throw_uniform _
  | some approval =>
    exact bind_uniform (op.carryOut_uniform time approval.plan) fun _ =>
      bind_uniform (charge_uniform _ _ _) fun _ => pure_uniform _

theorem perform_uniform (op : Operation) (config : Config) (time : Timestamp) (results : List Outcome) :
    (op.perform config time results).Uniform := by
  intro related simulation db twin given
  have same := simulation.contents db twin given
  unfold perform
  rw [get_congr (congrArg (PerKind.get · .globals) same) (⟨0⟩ : GlobalsId).id]
  cases op.validate with
  | error defect => exact ⟨rfl, given⟩
  | ok _ =>
    cases db.get .globals (⟨0⟩ : GlobalsId).id with
    | error e => exact ⟨rfl, given⟩
    | ok globals =>
      dsimp only
      have alike : Context.Alike ⟨db, config, time, op.scheduledFee globals.parameters.fees, results⟩
          ⟨twin, config, time, op.scheduledFee globals.parameters.fees, results⟩ :=
        ⟨same, rfl, rfl, rfl, rfl⟩
      rw [op.approve_alike alike]
      split
      · exact ⟨rfl, given⟩
      · exact adapt_uniform ChainError.breached (op.settle_uniform time _ _) related simulation db twin given

end Operation

end RoomLedger
