import RoomLedger.Proofs.FaithfulReplay
import RoomLedger.Proofs.RoomKeys

namespace RoomLedger

open Database Change

variable {ε δ α β : Type} {db mid after : Database} {k : Kind} {n : Nat} {operation : String}

namespace Kind

-- The kinds of the records that nothing removes.
def permanent : List Kind := [.account, .asset, .globals, .head, .supply, .balance]

-- What of a record is fixed, and what only grows.
def Succeeds : (k : Kind) → k.Row → k.Row → Prop
  | account, r, s => s = r
  | asset, r, s => s = r
  | sport, _, _ => True
  | eventGroup, _, _ => True
  | room, r, s => s.owner = r.owner ∧ s.created = r.created ∧ r.epoch ≤ s.epoch
  | participant, r, s => s.room = r.room ∧ s.account = r.account ∧ s.joined = r.joined
  | epochKey, r, s => s.room = r.room ∧ s.epoch = r.epoch ∧ s.account = r.account
  | globals, r, s => s = r
  | head, r, s => r.number ≤ s.number ∧ r.time.seconds ≤ s.time.seconds
  | supply, r, s => s.current = r.current ∧ r.fees ≤ s.fees
  | balance, r, s => s.owner = r.owner ∧ s.asset = r.asset

theorem Succeeds.refl (k : Kind) (row : k.Row) : k.Succeeds row row := by
  cases k <;> simp [Succeeds]

theorem Succeeds.trans {a b c : k.Row} (first : k.Succeeds a b) (second : k.Succeeds b c) : k.Succeeds a c := by
  cases k with
  | account | asset | globals => exact Eq.trans second first
  | sport | eventGroup => trivial
  | room => exact ⟨second.1.trans first.1, second.2.1.trans first.2.1, UInt32.le_trans first.2.2 second.2.2⟩
  | participant | epochKey =>
    exact ⟨second.1.trans first.1, second.2.1.trans first.2.1, second.2.2.trans first.2.2⟩
  | head => exact ⟨UInt32.le_trans first.1 second.1, UInt32.le_trans first.2 second.2⟩
  | supply => exact ⟨second.1.trans first.1, Int64.le_trans first.2 second.2⟩
  | balance => exact ⟨second.1.trans first.1, second.2.trans first.2⟩

theorem Succeeds.concerned {r s : k.Row} (succeeds : k.Succeeds r s) : k.concerned s = k.concerned r := by
  cases k with
  | account | asset => exact congrArg _ succeeds
  | room => exact congrArg (fun a => [a]) succeeds.1
  | participant => exact congrArg (fun a => [a]) succeeds.2.1
  | epochKey => exact congrArg (fun a => [a]) succeeds.2.2
  | balance => exact congrArg (fun a => [a]) succeeds.1
  | _ => rfl

end Kind

namespace Database

-- Counters do not go back, an id that has been given out and taken away stays away, and a record
-- that is still there is what it was, but for what may change of it.
structure Evolves (db after : Database) : Prop where
  sound : after.Sound
  counters : ∀ k, db.next k ≤ after.next k
  absent : ∀ k n, n < db.next k → db.row? k n = none → after.row? k n = none
  permanent : ∀ k ∈ Kind.permanent, ∀ n, (db.row? k n).isSome → (after.row? k n).isSome
  succeeds : ∀ k n (row later : k.Row), db.row? k n = some row → after.row? k n = some later → k.Succeeds row later

theorem evolves_of_rows (sound : after.Sound) (rows : ∀ k n, after.row? k n = db.row? k n)
    (counters : ∀ k, after.next k = db.next k) : db.Evolves after := by
  refine ⟨sound, fun k => Nat.le_of_eq (counters k).symm, fun k n _ none => (rows k n).trans none,
    fun k _ n stored => by rwa [rows], fun k n row later stored found => ?_⟩
  rw [rows, stored] at found
  cases found
  exact .refl k row

theorem Evolves.refl (sound : db.Sound) : db.Evolves db := evolves_of_rows sound (fun _ _ => rfl) fun _ => rfl

theorem evolves_of_contents (sound : after.Sound) (same : after.contents = db.contents) : db.Evolves after :=
  evolves_of_rows sound (fun k n => by rw [row?_eq_contents, row?_eq_contents, same])
    fun k => by rw [next_eq_contents, next_eq_contents, same]

-- A record that is there in the end was there all along, for once it is gone it stays away.
theorem Evolves.trans (known : db.Sound) (first : db.Evolves mid) (second : mid.Evolves after) :
    db.Evolves after := by
  refine ⟨second.sound, fun k => Nat.le_trans (first.counters k) (second.counters k), fun k n given none => ?_,
    fun k listed n stored => second.permanent k listed n (first.permanent k listed n stored),
    fun k n row last stored found => ?_⟩
  · exact second.absent k n (Nat.lt_of_lt_of_le given (first.counters k)) (first.absent k n given none)
  · cases between : mid.row? k n with
    | none =>
      rw [second.absent k n (Nat.lt_of_lt_of_le (known.bounded stored) (first.counters k)) between] at found
      cases found
    | some later =>
      exact (first.succeeds k n row later stored between).trans (second.succeeds k n later last between found)

theorem Puts.evolves {held : Option k.Row} (sound : db.Sound) (puts : db.Puts k n held after)
    (counter : db.next k ≤ after.next k) (absent : n < db.next k → db.row? k n = none → held = none)
    (permanent : k ∈ Kind.permanent → held.isSome)
    (succeeds : ∀ row later, db.row? k n = some row → held = some later → k.Succeeds row later) :
    db.Evolves after := by
  -- Each condition for the kind that is written, and for the others.
  refine ⟨puts.continues.sound sound, fun j => ?_, fun j m given none => ?_, fun j listed m stored => ?_,
    fun j m row later stored found => ?_⟩ <;> by_cases same : j = k
  · subst same
    exact counter
  · exact Nat.le_of_eq (puts.next_other same).symm
  · subst same
    rw [puts.rows]
    split
    · rename_i here
      subst here
      exact absent given none
    · exact none
  · rw [puts.row?_other same]
    exact none
  · subst same
    rw [puts.rows]
    split
    · exact permanent listed
    · exact stored
  · rwa [puts.row?_other same]
  · subst same
    rw [puts.rows] at found
    split at found
    · rename_i here
      subst here
      exact succeeds row later stored found
    · rw [stored] at found
      cases found
      exact .refl j row
  · rw [puts.row?_other same, stored] at found
    cases found
    exact .refl j row

end Database

namespace Change

def Evolving (change : Change ε α) : Prop :=
  ∀ (db : Database) a after, db.Sound → change db = (.ok a, after) → db.Evolves after

variable {change : Change ε α}

theorem evolving_of_eq (same : ∀ db : Database, (change db).2 = db) : change.Evolving := by
  intro db a after sound run
  have left := same db
  rw [run] at left
  cases left
  exact .refl sound

theorem pure_evolving (a : α) : Evolving (pure a : Change ε α) := evolving_of_eq fun _ => rfl

theorem throw_evolving (e : ε) : Evolving (throw e : Change ε α) := evolving_of_eq fun _ => rfl

theorem Evolving.bind {next : α → Change ε β} (first : change.Evolving) (later : ∀ a, (next a).Evolving) :
    (change >>= next).Evolving := by
  intro db b after sound run
  obtain ⟨a, mid, one, two⟩ := bind_eq_ok run
  have early := first db a mid sound one
  exact early.trans sound (later a mid b after early.sound two)

theorem forM_evolving {act : α → Change ε PUnit} (each : ∀ a, (act a).Evolving) (list : List α) :
    Evolving (list.forM act) := by
  induction list with
  | nil => exact pure_evolving _
  | cons a rest ih => exact (each a).bind fun _ => ih

theorem mapM_evolving {act : α → Change ε β} (each : ∀ a, (act a).Evolving) (list : List α) :
    Evolving (list.mapM act) := by
  induction list with
  | nil => exact pure_evolving _
  | cons a rest ih =>
    rw [List.mapM_cons]
    exact (each a).bind fun _ => ih.bind fun _ => pure_evolving _

end Change

namespace Write

theorem create_evolving (operation : String) (k : Kind) (fill : k.Row → k.Row) :
    (Write.create operation k fill).Evolving := by
  intro db row after sound run
  obtain ⟨-, puts, counted⟩ := Database.create_eq_ok sound (adapt_eq_ok run)
  refine puts.evolves sound (by omega) (fun given => absurd given (Nat.lt_irrefl _)) (fun _ => rfl) ?_
  intro other later stored
  rw [row?_next sound] at stored
  cases stored

theorem modify_evolves (sound : db.Sound) {id : RecordId k} {change : k.Row → k.Row}
    (run : Write.modify operation id change db = (.ok (), after))
    (keeps : ∀ row, Stored.number (change row) = Stored.number row)
    (succeeds : ∀ row, db.row? k id.number = some row → k.Succeeds row (change row)) : db.Evolves after := by
  obtain ⟨row, stored, puts⟩ := Write.modify_eq_ok sound run keeps
  obtain ⟨-, -, -, counted⟩ := Database.modify_eq_ok sound (adapt_eq_ok run)
  refine puts.evolves sound (Nat.le_of_eq counted.symm) (fun _ none => ?_) (fun _ => rfl)
    fun other later there same => ?_
  · rw [stored] at none
    cases none
  · cases same
    rw [stored] at there
    cases there
    exact succeeds row stored

theorem modify_evolving (operation : String) (id : RecordId k) (change : k.Row → k.Row)
    (keeps : ∀ row, Stored.number (change row) = Stored.number row)
    (succeeds : ∀ row, k.Succeeds row (change row)) : (Write.modify operation id change).Evolving :=
  fun _ _ _ sound run => modify_evolves sound run keeps fun row _ => succeeds row

theorem remove_evolving (passing : k ∉ Kind.permanent) (operation : String) (id : RecordId k) :
    (Write.remove operation id).Evolving := by
  intro db _ after sound run
  obtain ⟨-, puts⟩ := Write.remove_eq_ok sound run
  have counter := ((remove_edits (List.mem_singleton.mpr rfl) operation id).edited run).grows sound k
  exact puts.evolves sound counter (fun _ _ => rfl) (fun listed => absurd listed passing) nofun

theorem current_evolving : Write.current.Evolving := evolving_of_eq fun _ => rfl

theorem adjust_evolving (operation : String) (owner : AccountId) (asset : AssetId) (delta : Shares) :
    (Write.adjust operation owner asset delta).Evolving := by
  refine current_evolving.bind fun now => ?_
  dsimp only
  split
  · exact throw_evolving _
  · split
    · exact modify_evolving (k := .balance) _ _ _ (fun _ => rfl) fun _ => ⟨rfl, rfl⟩
    · exact (create_evolving _ _ _).bind fun _ => pure_evolving _

theorem epochKey_evolving (operation : String) (room : RoomId) (epoch : UInt32) (account : AccountId)
    (key : String) : (Write.epochKey operation room epoch account key).Evolving := by
  refine current_evolving.bind fun now => ?_
  split
  · refine Evolving.bind (modify_evolving (k := .epochKey) _ _ _ (fun _ => rfl) fun _ => ?_) fun _ => pure_evolving _
    exact ⟨rfl, rfl, rfl⟩
  · exact (create_evolving _ _ _).bind fun _ => pure_evolving _

end Write

variable {c : Context} {time : Timestamp} {outcome : Outcome} {total : Int} {config : Config}

namespace Rule

open Write

theorem updateRoom_evolving (time : Timestamp) (plan : updateRoom.Plan) (p : UpdateRoom) :
    (updateRoom.carryOut time plan p).Evolving := by
  refine Evolving.bind (modify_evolving (k := .room) _ _ _ (fun _ => rfl) fun _ => ?_) fun _ => pure_evolving _
  exact ⟨rfl, rfl, UInt32.le_refl _⟩

theorem addParticipant_evolving (time : Timestamp) (plan : addParticipant.Plan) (p : AddParticipant) :
    (addParticipant.carryOut time plan p).Evolving := by
  refine (create_evolving _ _ _).bind fun _ => (epochKey_evolving _ _ _ _ _).bind fun _ => ?_
  refine (forM_evolving (fun past => ?_) _).bind fun _ => pure_evolving _
  exact (epochKey_evolving _ _ _ _ _).bind fun _ => pure_evolving _

theorem rotateKey_evolves (sound : c.db.Sound) {p : RotateKey} {plan : Rotation}
    (examined : rotateKey.examine c p = .ok plan)
    (run : rotateKey.carryOut time plan p c.db = (.ok outcome, after)) : c.db.Evolves after := by
  obtain ⟨room, ⟨stored, -⟩, ⟨next, spare⟩, -⟩ := rotateKey_planned examined
  obtain ⟨_, one, modified, run⟩ := bind_eq_ok run
  have first : c.db.Evolves one := by
    refine modify_evolves sound modified (fun _ => rfl) fun row there => ?_
    rw [stored] at there
    cases there
    refine ⟨rfl, rfl, ?_⟩
    rw [next]
    exact (epoch_le_next_iff spare).mpr (.inr (UInt32.le_refl _))
  refine first.trans sound (Evolving.bind (mapM_evolving (fun member => ?_) _) (fun _ => pure_evolving _)
    one outcome after first.sound run)
  dsimp only
  split
  · exact throw_evolving _
  · refine Evolving.bind (modify_evolving (k := .participant) _ _ _ (fun _ => rfl) fun _ => ?_) fun _ =>
      epochKey_evolving _ _ _ _ _
    exact ⟨rfl, rfl, rfl⟩

theorem deleteRoom_evolving (time : Timestamp) (plan : deleteRoom.Plan) (p : DeleteRoom) :
    (deleteRoom.carryOut time plan p).Evolving :=
  (forM_evolving (remove_evolving (by decide) _) _).bind fun _ =>
    (forM_evolving (remove_evolving (by decide) _) _).bind fun _ =>
      (remove_evolving (by decide) _ _).bind fun _ => pure_evolving _

theorem updateSport_evolving (time : Timestamp) (plan : updateSport.Plan) (p : UpdateSport) :
    (updateSport.carryOut time plan p).Evolving := by
  refine Evolving.bind ?_ fun _ => pure_evolving _
  cases p.newName with
  | none => exact pure_evolving _
  | some name => exact modify_evolving (k := .sport) _ _ _ (fun _ => rfl) fun _ => trivial

end Rule

namespace Operation

open Write

theorem carryOut_evolves (sound : c.db.Sound) {op : Operation} {plan : op.Plan} (examined : op.examine c = .ok plan)
    (run : op.carryOut time plan c.db = (.ok outcome, after)) : c.db.Evolves after := by
  have of_evolving (evolving : (op.carryOut time plan).Evolving) : c.db.Evolves after :=
    evolving _ _ _ sound run
  cases op with
  | transfer p =>
    exact of_evolving
      ((adjust_evolving _ _ _ _).bind fun _ => (adjust_evolving _ _ _ _).bind fun _ => pure_evolving _)
  | createAccount p | createSport p | createEventGroup p =>
    exact of_evolving ((create_evolving _ _ _).bind fun _ => pure_evolving _)
  | createRoom p =>
    exact of_evolving ((create_evolving _ _ _).bind fun _ => (create_evolving _ _ _).bind fun _ =>
      (epochKey_evolving _ _ _ _ _).bind fun _ => pure_evolving _)
  | updateRoom p => exact of_evolving (Rule.updateRoom_evolving time plan p)
  | addParticipant p => exact of_evolving (Rule.addParticipant_evolving time plan p)
  | removeParticipant p | deleteEventGroup p =>
    exact of_evolving ((remove_evolving (by decide) _ _).bind fun _ => pure_evolving _)
  | rotateKey p => exact Rule.rotateKey_evolves sound examined run
  | deleteRoom p => exact of_evolving (Rule.deleteRoom_evolving time plan p)
  | updateSport p => exact of_evolving (Rule.updateSport_evolving time plan p)
  | deleteSport p =>
    exact of_evolving ((forM_evolving (remove_evolving (by decide) _) _).bind fun _ =>
      (remove_evolving (by decide) _ _).bind fun _ => pure_evolving _)
  | updateEventGroup p =>
    exact of_evolving (Evolving.bind (modify_evolving (k := .eventGroup) _ _ _ (fun _ => rfl) fun _ => trivial)
      fun _ => pure_evolving _)

theorem charge_evolves {name : String} {payer : AccountId} {fee : Shares} (grounded : db.Grounded)
    (backed : db.Backed total 0) (enough : 0 < fee.toInt → fee.toInt ≤ (db.holding payer coreAsset).toInt)
    (run : charge name payer fee db = (.ok (), after)) : db.Evolves after := by
  unfold charge at run
  split at run
  · rename_i positive
    rw [Shares.pos_iff] at positive
    obtain ⟨-, left, a, s, paid, adjusted, found, stored, fits⟩ :=
      charge_moves grounded backed name payer fee (by omega) (enough positive)
    have first := adjust_evolving _ _ _ _ _ _ _ grounded.sound paid
    obtain ⟨_, mid, adjust, run⟩ := bind_eq_ok run
    rw [paid] at adjust
    cases adjust
    obtain ⟨core, same, got, run⟩ := bind_eq_ok run
    obtain ⟨known, rfl⟩ := Prod.mk.inj (adapt_eq_ok got)
    rw [RecordId.id, get_of_row? found] at known
    cases known
    refine first.trans grounded.sound (modify_evolves first.sound run (fun _ => rfl) fun row there => ?_)
    rw [stored] at there
    cases there
    refine ⟨rfl, ?_⟩
    change s.fees ≤ s.fees + fee
    rw [Int64.le_iff_toInt_le, Shares.toInt_add_of_fits fits]
    omega
  · cases run
    exact .refl grounded.sound

theorem Performed.evolves {op : Operation} (performed : op.Performed c outcome after)
    (standing : c.db.Standing total) : c.db.Evolves after := by
  have grounded := standing.grounded
  have backed := standing.backed
  obtain ⟨plan, mid, examined, enough, carried, charged⟩ := performed.stages grounded.sound
  obtain ⟨_, _, run, grounded', backed', enough'⟩ :=
    carryOut_ends grounded backed performed.fee performed.validated examined enough c.time
  rw [carried] at run
  cases run
  exact (carryOut_evolves grounded.sound examined carried).trans grounded.sound
    (charge_evolves grounded' backed' enough' charged)

end Operation

theorem evolves_transition : Transition fun db after => db.Sound → db.Evolves after :=
  ⟨fun _ _ _ sound' same _ => evolves_of_contents sound' same,
    fun _ _ _ first second known => (first known).trans known (second (first known).sound)⟩

theorem Operation.perform_evolves (op : Operation) (total : Int) (config : Config) (time : Timestamp)
    (results : List Outcome) :
    (op.perform config time results).Leads total fun db after => db.Sound → db.Evolves after :=
  op.perform_leads (fun _ _ _ _ _ standing performed _ => performed.evolves standing) results

namespace Chain

variable {ω : Type} {first s t : Chain ω} {genesis : Genesis} {observers : List ω}

theorem advance_evolves (sound : db.Sound) {number : UInt32} {time : Timestamp} (follows : Follows db number time)
    (run : advance number time db = (.ok (), after)) : db.Evolves after := by
  obtain ⟨head, stored, next, late⟩ := follows
  obtain ⟨row, there, puts, counted⟩ := Database.modify_eq_ok sound run
  rw [stored] at there
  cases there
  refine puts.evolves sound (Nat.le_of_eq counted.symm) (fun _ none => ?_) (fun _ => rfl)
    fun old later found same => ?_
  · rw [stored] at none
    cases none
  · cases same
    rw [stored] at found
    cases found
    have later : head.number.toNat ≤ number.toNat := by omega
    exact ⟨UInt32.le_iff_toNat_le.mpr later, late⟩

theorem evolving_carriedOn {base : Database} (founded : base.Sound) :
    Chronicle.CarriedOn total config ⟨fun _ db => base.Evolves db, fun _ _ db => base.Evolves db⟩ := by
  refine ⟨?_, ?_, ?_, fun _ _ _ _ _ given => given, ?_⟩
  · rintro _ db after number time - - given follows advanced
    have pushed := evolves_of_contents (push_sound given.sound) (contents_push db)
    refine given.trans founded (pushed.trans given.sound (advance_evolves pushed.sound ?_ advanced))
    unfold Follows at follows ⊢
    rwa [row?_eq_contents, contents_push, ← row?_eq_contents]
  · intro _ block db after op outcome standing given run
    have leads := (op.perform_evolves total config block.receipt.time []).nested evolves_transition
    exact given.trans founded (leads.leads _ _ _ standing run given.sound)
  · intro _ block db after t results standing given _ run
    have leads := Transaction.perform_leads evolves_transition
      fun op (_ : op ∈ t.operations) => op.perform_evolves total config block.receipt.time
    exact given.trans founded (leads.leads _ _ _ standing run given.sound)
  · rintro _ _ db after - given run sound
    exact given.trans founded (evolves_of_contents sound (by rw [← contents_commit db, run]))

theorem Idle.evolves [Observer ω] {answers : List (Except ChainError Unit)} (idle : s.Idle total)
    (run : Run s answers t) : s.db.Evolves t.db := by
  have sound := idle.standing.grounded.sound
  obtain ⟨history, commits⟩ := run.commits
  have truth := Chronicle.IsTrue.commits (evolving_carriedOn sound) (.idle ⟨idle, rfl, .refl sound⟩) commits
  cases truth with
  | idle idle => exact idle.settled
  | busy busy =>
    obtain ⟨block, -, pending⟩ := busy.pending
    exact pending

theorem Steady.idle_of_closed (steady : s.Steady total) (closed : s.openBlock = none) : s.Idle total := by
  cases steady with
  | idle idle => exact idle
  | busy busy =>
    have opened := busy.inside.opened
    rw [closed] at opened
    cases opened

def pool? (db : Database) : Option Supply :=
  (db.row? .asset coreAsset.number).bind fun core => db.row? .supply core.supply.number

theorem records_last [Observer ω] {answers later : List (Except ChainError Unit)}
    (started : start config genesis observers = .ok first) (run : Run first answers s) (closed : s.openBlock = none)
    (onward : Run s later t) :
    s.db.Evolves t.db ∧
    (∃ head head', s.head = .ok head ∧ t.head = .ok head' ∧ head.number ≤ head'.number ∧
      head.time.seconds ≤ head'.time.seconds) ∧
    ∃ pool pool', pool? s.db = some pool ∧ pool? t.db = some pool' ∧ pool.fees ≤ pool'.fees := by
  have steady := run_steady (start_steady started).1 run
  have standing := steady.standing
  have standing' := (run_steady steady onward).standing
  have evolves := (steady.idle_of_closed closed).evolves onward
  refine ⟨evolves, ?_, ?_⟩
  · obtain ⟨head, stored⟩ := standing.head
    obtain ⟨head', stored'⟩ := standing'.head
    exact ⟨head, head', head_eq_ok stored, head_eq_ok stored', evolves.succeeds .head _ _ _ stored stored'⟩
  · obtain ⟨core, pool, found, stored, -⟩ := standing.backed.supply
    obtain ⟨core', pool', found', stored', -⟩ := standing'.backed.supply
    obtain rfl : core' = core := evolves.succeeds .asset _ _ _ found found'
    refine ⟨pool, pool', ?_, ?_, (evolves.succeeds .supply _ _ _ stored stored').2⟩
    · change (s.db.row? .asset 0).bind _ = _
      rw [found]
      exact stored
    · change (t.db.row? .asset 0).bind _ = _
      rw [found']
      exact stored'

theorem records_last_den :
    start .permissive funded [Watcher.idle] = .ok founded ∧ founded.openBlock = none ∧
    ∃ answers, Run founded [] founded ∧ Run founded answers denKept ∧ founded.db.Evolves denKept.db ∧
    founded.db.next .room = 0 ∧ denKept.db.next .room = 1 ∧
    (pool? founded.db).map Supply.fees = some 0 ∧ (pool? denKept.db).map Supply.fees = some 2000000 := by
  obtain ⟨answers, run⟩ := denKept_commits.run
  exact ⟨founded_started, rfl, answers, .nil, run, (records_last founded_started .nil rfl run).1, by decide +kernel,
    by decide +kernel, by decide +kernel, by decide +kernel⟩

end Chain

end RoomLedger
