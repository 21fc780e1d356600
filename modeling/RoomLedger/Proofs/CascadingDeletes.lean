import RoomLedger.Proofs.FeePayments
import RoomLedger.Proofs.ReachedStates
import RoomLedger.Proofs.RecordIds
import RoomLedger.Proofs.TransactionSequences

namespace RoomLedger

open Database Change

variable {α : Type} [DecidableEq α] {db mid after : Database} {c : Context} {time : Timestamp} {outcome : Outcome}
  {payer : AccountId} {fee : Shares}

theorem RecordId.number_inj {k : Kind} {r s : RecordId k} : r.number = s.number ↔ r = s :=
  ⟨congrArg mk, congrArg number⟩

def Kind.filing : (k : Kind) → k.Row → Option SportId
  | sport, s => some s.id
  | eventGroup, g => some g.sport
  | _, _ => none

namespace Database

variable {part : (k : Kind) → k.Row → Option α} {whole : α} {ids : List ObjectId}

-- Whatever is part of a whole is gone, and its ids have been told.
structure Cascades (part : (k : Kind) → k.Row → Option α) (whole : α) (db : Database) (outcome : Outcome)
    (after : Database) : Prop where
  gone : ∀ k, ∀ row ∈ after.rows k, part k row ≠ some whole
  others : ∀ k ∉ [Kind.balance, .supply], after.rows k = (db.rows k).filter fun row => part k row ≠ some whole
  told : ∃ removed : SortedSet ObjectId, outcome = .touched ⟨.empty, .empty, removed⟩ ∧
    ∀ id, removed.contains id = true ↔ (db.findAny id).isSome = true ∧ after.findAny id = none

structure Takes (part : (k : Kind) → k.Row → Option α) (whole : α) (db : Database) (ids : List ObjectId)
    (after : Database) : Prop where
  left : ∀ k n row, after.row? k n = some row ↔ db.row? k n = some row ∧ part k row ≠ some whole
  listed : ∀ id, id ∈ ids ↔ ∃ k, ∃ row ∈ db.rows k, part k row = some whole ∧ id = k.id (Stored.number row)

theorem findAny_isSome_iff (sound : db.Sound) {k : Kind} {n : Nat} :
    (db.findAny (k.id n)).isSome = true ↔ n ∈ (db.rows k).map Stored.number := by
  rw [findAny_id, Option.isSome_map, Option.isSome_iff_exists, List.mem_map]
  constructor
  · intro given
    obtain ⟨row, stored⟩ := given
    exact ⟨row, mem_rows_iff.mpr ⟨n, stored⟩, sound.numbered stored⟩
  · intro given
    obtain ⟨row, listed, rfl⟩ := given
    exact ⟨row, (mem_rows sound).mp listed⟩

-- A fee is paid from one record to another, both of which stay.
theorem Pays.numbers (pays : db.Pays payer fee after) {k : Kind} (money : k ∈ [Kind.balance, .supply]) :
    (after.rows k).map Stored.number = (db.rows k).map Stored.number := by
  simp only [List.mem_cons, List.not_mem_nil, or_false] at money
  obtain ⟨balances, core, -, -, supplies⟩ := pays
  rcases money with rfl | rfl
  · rw [balances, List.map_map]
    exact List.map_congr_left fun b _ => Balance.number_paying b
  · rw [supplies, List.map_map]
    exact List.map_congr_left fun s _ => Supply.number_collecting s

theorem row?_without (sound : db.Sound) {k : Kind} {id : RecordId k} {n : Nat} {row : k.Row}
    (rows : ∀ m, after.row? k m = if m = id.number then none else db.row? k m) :
    after.row? k n = some row ↔ db.row? k n = some row ∧ Stored.number row ≠ id.number := by
  rw [rows]
  split
  · rename_i here
    refine ⟨fun gone => (nomatch gone), fun given => absurd ?_ given.2⟩
    rw [sound.numbered given.1, here]
  · rename_i elsewhere
    refine (and_iff_left_of_imp fun stored => ?_).symm
    rwa [sound.numbered stored]

theorem Takes.mem_iff (takes : db.Takes part whole ids mid) (sound : db.Sound) {id : ObjectId} :
    id ∈ ids ↔ (db.findAny id).isSome = true ∧ mid.findAny id = none := by
  rw [takes.listed]
  constructor
  · intro given
    obtain ⟨k, row, listed, inside, rfl⟩ := given
    have stored := (mem_rows sound).mp listed
    rw [findAny_id, findAny_id, stored, Option.map_eq_none_iff, Option.eq_none_iff_forall_ne_some]
    refine ⟨rfl, fun other stays => ?_⟩
    obtain ⟨before, apart⟩ := (takes.left k _ other).mp stays
    cases stored.symm.trans before
    exact apart inside
  · intro given
    obtain ⟨found, missing⟩ := given
    obtain ⟨r, found⟩ := Option.isSome_iff_exists.mp found
    obtain ⟨n, rfl, stored⟩ := findAny_eq_some_iff.mp found
    rw [findAny_id, Option.map_eq_none_iff] at missing
    refine ⟨r.kind, r.row, mem_rows_iff.mpr ⟨n, stored⟩, Decidable.not_not.mp fun apart => ?_, ?_⟩
    · have stays := (takes.left r.kind n r.row).mpr ⟨stored, apart⟩
      rw [missing] at stays
      cases stays
    · rw [sound.numbered stored]

theorem Takes.cascades (takes : db.Takes part whole ids mid) (sound : db.Sound) (sound' : mid.Sound)
    (sound'' : after.Sound) (apart : ∀ k ∈ [Kind.balance, .supply], ∀ row, part k row = none)
    (pays : db.Pays payer fee after) (same : ∀ k ∉ [Kind.balance, .supply], after.rows k = mid.rows k) :
    Cascades part whole db (.touched ⟨.empty, .empty, .ofList ids⟩) after := by
  have rows : ∀ k, mid.rows k = (db.rows k).filter fun row => part k row ≠ some whole :=
    fun k => rows_filter sound sound' (takes.left k)
  have numbers : ∀ k, (after.rows k).map Stored.number = (mid.rows k).map Stored.number := by
    intro k
    by_cases money : k ∈ [Kind.balance, .supply]
    · rw [pays.numbers money, rows k, List.filter_eq_self.mpr fun row _ => by simp [apart k money row]]
    · rw [same k money]
  refine ⟨fun k row listed inside => ?_, fun k unpaid => (same k unpaid).trans (rows k), .ofList ids, rfl,
    fun id => ?_⟩
  · by_cases money : k ∈ [Kind.balance, .supply]
    · rw [apart k money row] at inside
      cases inside
    · rw [same k money, rows k, List.mem_filter, decide_eq_true_eq] at listed
      exact listed.2 inside
  · rw [SortedSet.contains_ofList, decide_eq_true_eq, takes.mem_iff sound]
    refine and_congr_right fun found => ?_
    obtain ⟨r, found⟩ := Option.isSome_iff_exists.mp found
    obtain ⟨n, rfl, -⟩ := findAny_eq_some_iff.mp found
    rw [← Option.not_isSome_iff_eq_none, ← Option.not_isSome_iff_eq_none, findAny_isSome_iff sound',
      findAny_isSome_iff sound'', numbers]

end Database

namespace Rule

-- Who owns a room may delete it, whatever is in it.
theorem deleteRoom_examine_iff (sound : c.db.Sound) {p : DeleteRoom} :
    (∃ plan, deleteRoom.examine c p = .ok plan) ↔ c.db.OwnedBy p.room p.owner := by
  rw [ownedBy_iff sound]
  constructor
  · intro given
    obtain ⟨plan, examined⟩ := given
    exact (deleteRoom_planned examined).1
  · intro given
    obtain ⟨room, stored⟩ := given
    have owned := Context.ownedRoom_eq_ok_iff.mpr stored
    refine ⟨⟨(c.db.participantsOf p.room).map Participant.id, (c.db.keysOf p.room).map EpochKey.id⟩, ?_⟩
    simp only [deleteRoom, owned, bind, Except.bind]
    rfl

-- The look-up of what is filed under a sport does not fail where every kind is registered.
theorem deleteSport_examine_iff (sound : c.db.Sound) (complete : c.db.Complete) {p : DeleteSport} :
    (∃ plan, deleteSport.examine c p = .ok plan) ↔ ∃ sport ∈ c.db.rows .sport, sport.id = p.sport := by
  constructor
  · intro given
    obtain ⟨plan, examined⟩ := given
    obtain ⟨⟨sport, stored⟩, -⟩ := deleteSport_planned sound examined
    exact ⟨sport, mem_rows_iff.mpr ⟨_, stored⟩, congrArg RecordId.mk (sound.numbered stored)⟩
  · intro given
    obtain ⟨sport, listed, place⟩ := given
    have got : c.get p.sport = .ok sport := by
      rw [← place]
      exact Context.get_of_row? ((mem_rows sound).mp listed)
    obtain ⟨t, held⟩ := Option.isSome_iff_exists.mp (complete .eventGroup)
    obtain ⟨filed, found, -⟩ :=
      Table.startingWith_spec (sound.table _ t held).toCoherent Table.eventGroup_by_sport [p.sport.part]
    have looked : c.db.startingWith .eventGroup "by_sport" [p.sport.part] = .ok filed := by
      rw [startingWith, lookUp_eq held, found]
      rfl
    refine ⟨filed.map EventGroup.id, ?_⟩
    simp only [deleteSport, got, looked, bind, Except.bind]
    rfl

theorem deleteRoom_takes (sound : c.db.Sound) {p : DeleteRoom} {plan : Belongings}
    (examined : deleteRoom.examine c p = .ok plan)
    (run : deleteRoom.carryOut time plan p c.db = (.ok outcome, after)) :
    ∃ ids, c.db.Takes Kind.housing p.room ids after ∧ outcome = .touched ⟨.empty, .empty, .ofList ids⟩ := by
  obtain ⟨⟨r, housed, -⟩, participants, keys⟩ := deleteRoom_planned examined
  have vacates := deleteRoom_vacates sound examined run
  have edited : Edited OperationKind.deleteRoom.written c.db after :=
    (Operation.carryOut_edits (.deleteRoom p) time plan).edited run
  obtain ⟨_, _, -, run⟩ := bind_eq_ok run
  obtain ⟨_, _, -, run⟩ := bind_eq_ok run
  obtain ⟨_, _, -, left⟩ := bind_eq_ok run
  cases left
  refine ⟨_, ⟨fun k n row => ?_, fun id => ?_⟩, rfl⟩
  · cases k with
    | room =>
      refine (row?_without sound vacates.rooms).trans (and_congr_right fun _ => not_congr ?_)
      rw [Kind.housing, Option.some_inj]
      exact RecordId.number_inj
    | participant => simpa [Kind.housing] using vacates.participants n row
    | epochKey => simpa [Kind.housing] using vacates.keys n row
    | _ =>
      rw [row?_congr (edited.tables (by decide))]
      exact (and_iff_left nofun).symm
  · rw [participants, keys]
    simp only [List.cons_append, List.mem_cons, List.mem_append, List.mem_map]
    constructor
    · intro given
      rcases given with rfl | ⟨_, ⟨m, present, rfl⟩, rfl⟩ | ⟨_, ⟨e, present, rfl⟩, rfl⟩
      · exact ⟨.room, r, mem_rows_iff.mpr ⟨_, housed⟩, congrArg some (congrArg RecordId.mk (sound.numbered housed)),
          congrArg Kind.room.id (sound.numbered housed).symm⟩
      · obtain ⟨stored, inside⟩ := (mem_participantsOf sound).mp present
        exact ⟨.participant, m, mem_rows_iff.mpr ⟨_, stored⟩, congrArg some inside, rfl⟩
      · obtain ⟨stored, inside⟩ := (mem_keysOf sound).mp present
        exact ⟨.epochKey, e, mem_rows_iff.mpr ⟨_, stored⟩, congrArg some inside, rfl⟩
    · intro given
      obtain ⟨k, row, listed, inside, rfl⟩ := given
      have stored := (mem_rows sound).mp listed
      cases k with
      | room => exact .inl (congrArg RecordId.id (Option.some.inj inside))
      | participant =>
        exact .inr (.inl ⟨_, ⟨row, (mem_participantsOf sound).mpr ⟨stored, Option.some.inj inside⟩, rfl⟩, rfl⟩)
      | epochKey => exact .inr (.inr ⟨_, ⟨row, (mem_keysOf sound).mpr ⟨stored, Option.some.inj inside⟩, rfl⟩, rfl⟩)
      | _ => cases inside

theorem deleteSport_takes (sound : c.db.Sound) {p : DeleteSport} {groups : List EventGroupId}
    (examined : deleteSport.examine c p = .ok groups)
    (run : deleteSport.carryOut time groups p c.db = (.ok outcome, after)) :
    ∃ ids, c.db.Takes Kind.filing p.sport ids after ∧ outcome = .touched ⟨.empty, .empty, .ofList ids⟩ := by
  have removed := deleteSport_removes sound examined
  obtain ⟨⟨s, stored⟩, filed, listed, member⟩ := deleteSport_planned sound examined
  obtain ⟨mid, removes, puts⟩ := deleteSport_steps sound run
  have edited : Edited OperationKind.deleteSport.written c.db after :=
    (Operation.carryOut_edits (.deleteSport p) time groups).edited run
  obtain ⟨_, _, -, run⟩ := bind_eq_ok run
  obtain ⟨_, _, -, left⟩ := bind_eq_ok run
  cases left
  refine ⟨_, ⟨fun k n row => ?_, fun id => ?_⟩, rfl⟩
  · cases k with
    | sport =>
      have rows : ∀ m, after.row? .sport m = if m = p.sport.number then none else c.db.row? .sport m := fun m => by
        rw [puts.rows, removes.row?_other (by simp)]
      refine (row?_without sound rows).trans (and_congr_right fun _ => not_congr ?_)
      rw [Kind.filing, Option.some_inj]
      exact RecordId.number_inj
    | eventGroup =>
      rw [puts.row?_other (by simp), removes.row?_eq_some_iff _ removed]
      simp only [Kind.filing, ne_eq, Option.some_inj]
    | _ =>
      rw [row?_congr (edited.tables (by decide))]
      exact (and_iff_left nofun).symm
  · rw [listed]
    simp only [List.mem_cons, List.mem_map]
    constructor
    · intro given
      rcases given with rfl | ⟨_, ⟨g, present, rfl⟩, rfl⟩
      · exact ⟨.sport, s, mem_rows_iff.mpr ⟨_, stored⟩, congrArg some (congrArg RecordId.mk (sound.numbered stored)),
          congrArg Kind.sport.id (sound.numbered stored).symm⟩
      · obtain ⟨stored, inside⟩ := (member g).mp present
        exact ⟨.eventGroup, g, mem_rows_iff.mpr ⟨_, stored⟩, congrArg some inside, rfl⟩
    · intro given
      obtain ⟨k, row, present, inside, rfl⟩ := given
      have stored := (mem_rows sound).mp present
      cases k with
      | sport => exact .inl (congrArg RecordId.id (Option.some.inj inside))
      | eventGroup => exact .inr ⟨_, ⟨row, (member row).mpr ⟨stored, Option.some.inj inside⟩, rfl⟩, rfl⟩
      | _ => cases inside

end Rule

theorem Operation.Performed.cascades {op : Operation} {part : (k : Kind) → k.Row → Option α} {whole : α} {total : Int}
    (performed : op.Performed c outcome after) (standing : c.db.Standing total) (other : op.kind ≠ .transfer)
    (apart : ∀ k ∈ [Kind.balance, .supply], ∀ row, part k row = none)
    (takes : ∀ (plan : op.Plan) (mid : Database), op.examine c = .ok plan →
      op.carryOut c.time plan c.db = (.ok outcome, mid) →
      ∃ ids, c.db.Takes part whole ids mid ∧ outcome = .touched ⟨.empty, .empty, .ofList ids⟩) :
    Cascades part whole c.db outcome after ∧ c.db.Pays op.payer c.fee after := by
  have sound := standing.grounded.sound
  obtain ⟨plan, mid, examined, carried, pays, same⟩ := performed.pays standing other
  obtain ⟨ids, taken, rfl⟩ := takes plan mid examined carried
  exact ⟨taken.cascades sound (carryOut_sound sound carried) (performed.sound sound) apart pays same, pays⟩

namespace Chain

variable {ω : Type} {first last : Chain ω} {config : Config} {genesis : Genesis} {observers : List ω}
  {answers : List (Except ChainError Unit)}

theorem deletes_cascade [Observer ω] (started : start config genesis observers = .ok first)
    (run : Run first answers last) (reaches : last.Reaches db) (time : Timestamp) (results : List Outcome) :
    (∀ p : DeleteRoom, ∃ fee, db.feeOf? (.deleteRoom p) = some fee ∧
      ((∃ outcome after, (Operation.deleteRoom p).perform config time results db = (.ok outcome, after)) ↔
        (Operation.deleteRoom p).validate = .ok () ∧ db.Affords fee (.deleteRoom p) ∧ db.OwnedBy p.room p.owner) ∧
      ∀ outcome after, (Operation.deleteRoom p).perform config time results db = (.ok outcome, after) →
        Cascades Kind.housing p.room db outcome after ∧ db.Pays p.owner fee after) ∧
    ∀ p : DeleteSport, ∃ fee, db.feeOf? (.deleteSport p) = some fee ∧
      ((∃ outcome after, (Operation.deleteSport p).perform config time results db = (.ok outcome, after)) ↔
        (Operation.deleteSport p).validate = .ok () ∧ db.Affords fee (.deleteSport p) ∧
          ∃ sport ∈ db.rows .sport, sport.id = p.sport) ∧
      ∀ outcome after, (Operation.deleteSport p).perform config time results db = (.ok outcome, after) →
        Cascades Kind.filing p.sport db outcome after ∧ db.Pays witnessAccount fee after := by
  have standing := reached_standing started run reaches
  have sound := standing.grounded.sound
  constructor
  · intro p
    obtain ⟨fee, scheduled⟩ := standing.feeOf? (.deleteRoom p)
    refine ⟨fee, scheduled, ?_, fun outcome after performed => ?_⟩
    · rw [Operation.perform_accepts_iff standing scheduled]
      exact and_congr_right fun _ => and_congr_right fun _ => Rule.deleteRoom_examine_iff sound
    · exact (Operation.performed_at_fee performed scheduled).cascades standing
        (fun transfers => nomatch transfers) (by simp [Kind.housing])
        fun _ _ examined carried => Rule.deleteRoom_takes sound examined carried
  · intro p
    obtain ⟨fee, scheduled⟩ := standing.feeOf? (.deleteSport p)
    refine ⟨fee, scheduled, ?_, fun outcome after performed => ?_⟩
    · rw [Operation.perform_accepts_iff standing scheduled]
      exact and_congr_right fun _ => and_congr_right fun _ =>
        Rule.deleteSport_examine_iff sound standing.grounded.complete
    · exact (Operation.performed_at_fee performed scheduled).cascades standing
        (fun transfers => nomatch transfers) (by simp [Kind.filing])
        fun _ _ examined carried => Rule.deleteSport_takes sound examined carried

-- A sport that an event group has been moved to since it was made.
def tour : Transaction :=
  let named (name : String) : LocalizedName := ⟨.ofList [("en", name)]⟩
  Transaction.signedBy ⟨[.createSport ⟨.core 100000, named "chess"⟩, .createSport ⟨.core 100000, named "go"⟩,
    .createEventGroup ⟨.core 100000, named "masters", ⟨0, 7, 1⟩⟩,
    .createEventGroup ⟨.core 100000, named "juniors", ⟨0, 7, 1⟩⟩,
    .updateEventGroup ⟨.core 100000, ⟨0⟩, some ⟨0, 7, 0⟩, none⟩], .empty⟩ witnessAccount

def toured : Chain Watcher := ((Call.transaction tour).run arenaOpen).2

theorem toured_run : Run arena [.ok (), .ok ()] toured := by
  have answered : ((Call.transaction tour).run arenaOpen).1 = .ok () := by decide +kernel
  have opened : Run arena [.ok ()] arenaOpen := .call .nil (.begin 1 ⟨7⟩) (by rfl)
  have run : Run arena ([.ok ()] ++ [((Call.transaction tour).run arenaOpen).1]) toured :=
    .call opened (.transaction tour) (by rfl)
  rwa [answered] at run

def leaveDen : DeleteRoom := ⟨.core 100000, ⟨2⟩, ⟨0⟩⟩

def dropChess : DeleteSport := ⟨.core 100000, ⟨0⟩⟩

-- The keys of the room go with it, and of the event groups the one that had been moved.
theorem deletes_cascade_twice :
    (start .permissive funded [Watcher.idle] = .ok founded ∧ Run founded [.ok (), .ok (), .ok ()] turned ∧
      turned.Reaches turned.db.push ∧ ∃ outcome after,
        (Operation.deleteRoom leaveDen).perform .permissive ⟨7⟩ [] turned.db.push = (.ok outcome, after) ∧
        Cascades Kind.housing ⟨0⟩ turned.db.push outcome after ∧ turned.db.push.Pays ⟨2⟩ 100000 after ∧
        (turned.db.push.rows .epochKey).length = 4 ∧ after.rows .epochKey = []) ∧
    (start policed sponsored [Watcher.idle] = .ok arena ∧ Run arena [.ok (), .ok ()] toured ∧
      toured.Reaches toured.db.push ∧ ∃ outcome after,
        (Operation.deleteSport dropChess).perform policed ⟨7⟩ [] toured.db.push = (.ok outcome, after) ∧
        Cascades Kind.filing ⟨0⟩ toured.db.push outcome after ∧ toured.db.push.Pays witnessAccount 100000 after ∧
        (toured.db.push.rows .eventGroup).map EventGroup.sport = [⟨0⟩, ⟨1⟩] ∧
        (after.rows .eventGroup).map EventGroup.sport = [⟨1⟩]) := by
  have started : start policed sponsored [Watcher.idle] = .ok arena := by rfl
  have within : turned.Examined ⟨7⟩ turned.db.push [] := .alone
  have within' : toured.Examined ⟨7⟩ toured.db.push [] := .alone
  have reaches : turned.Reaches turned.db.push := .examined within
  have reaches' : toured.Reaches toured.db.push := .examined within'
  constructor
  · have accepted : ((Operation.deleteRoom leaveDen).perform .permissive ⟨7⟩ [] turned.db.push).1.toOption.isSome := by
      decide +kernel
    have left : ((Operation.deleteRoom leaveDen).perform .permissive ⟨7⟩ [] turned.db.push).2.rows .epochKey = [] := by
      decide +kernel
    have keys : (turned.db.push.rows .epochKey).length = 4 := by decide +kernel
    have charged : turned.db.push.feeOf? (.deleteRoom leaveDen) = some 100000 := by decide +kernel
    obtain ⟨outcome, performed⟩ := eq_ok_of_isSome accepted
    obtain ⟨fee, scheduled, -, removes⟩ := (deletes_cascade founded_started turned_run reaches ⟨7⟩ []).1 leaveDen
    cases scheduled.symm.trans charged
    obtain ⟨cascades, pays⟩ := removes outcome _ performed
    exact ⟨founded_started, turned_run, reaches, outcome, _, performed, cascades, pays, keys, left⟩
  · have accepted : ((Operation.deleteSport dropChess).perform policed ⟨7⟩ [] toured.db.push).1.toOption.isSome := by
      decide +kernel
    have left : (((Operation.deleteSport dropChess).perform policed ⟨7⟩ [] toured.db.push).2.rows .eventGroup).map
        EventGroup.sport = [⟨1⟩] := by
      decide +kernel
    have groups : (toured.db.push.rows .eventGroup).map EventGroup.sport = [⟨0⟩, ⟨1⟩] := by decide +kernel
    have charged : toured.db.push.feeOf? (.deleteSport dropChess) = some 100000 := by decide +kernel
    obtain ⟨outcome, performed⟩ := eq_ok_of_isSome accepted
    obtain ⟨fee, scheduled, -, removes⟩ := (deletes_cascade started toured_run reaches' ⟨7⟩ []).2 dropChess
    cases scheduled.symm.trans charged
    obtain ⟨cascades, pays⟩ := removes outcome _ performed
    exact ⟨started, toured_run, reaches', outcome, _, performed, cascades, pays, groups, left⟩

end Chain

end RoomLedger
