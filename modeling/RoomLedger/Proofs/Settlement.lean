import RoomLedger.Proofs.ContentReads
import RoomLedger.Proofs.CoreSupply
import RoomLedger.Proofs.RuleSettlement

namespace RoomLedger

open Database Change

variable {db after : Database} {n : Nat} {total out : Int} {c : Context}

namespace Database

theorem Backed.edited {kinds : List Kind} (backed : db.Backed total out) (grounded : db.Grounded)
    (edited : Edited kinds db after) (asset : .asset ∉ kinds) (supply : .supply ∉ kinds)
    (balance : .balance ∉ kinds) : after.Backed total out :=
  backed.congr grounded.complete ((edited.continues grounded.sound).complete grounded.complete)
    (row?_congr (edited.tables asset)) (row?_congr (edited.tables supply))
    (row?_congr (edited.tables balance))

theorem Backed.collect (backed : db.Backed total out) {a : AssetInfo} {s t : Supply}
    (found : db.row? .asset 0 = some a) (stored : db.row? .supply a.supply.number = some s)
    (puts : db.Puts .supply a.supply.number (some t) after) {fee : Int} (nonneg : 0 ≤ fee)
    (current : t.current = s.current) (fees : t.fees.toInt = s.fees.toInt + fee) (covered : fee ≤ out) :
    after.Backed total (out - fee) := by
  have held : after.coreHeld = db.coreHeld := by
    rw [coreHeld, coreHeld, rows, rows, puts.others _ (by simp)]
  obtain ⟨a', s', found', stored', known, positive, sum⟩ := backed.supply
  rw [found] at found'
  cases found'
  rw [stored] at stored'
  cases stored'
  refine ⟨⟨a, t, ?_, ?_, ?_, by omega, by omega⟩, ?_, ?_, backed.bounded, by omega⟩
  · rw [puts.row?_other (by simp), found]
  · rw [puts.rows, if_pos rfl]
  · rw [current, known]
  · intro m b present
    rw [puts.row?_other (by simp)] at present
    exact backed.single m b present
  · intro m b present
    rw [puts.row?_other (by simp)] at present
    exact backed.balances m b present

-- The fees that are collected and those that are on their way do not pass the supply.
theorem Backed.fees_fit (backed : db.Backed total out) {a : AssetInfo} {s : Supply}
    (found : db.row? .asset 0 = some a) (stored : db.row? .supply a.supply.number = some s) {fee : Int}
    (nonneg : 0 ≤ fee) (covered : fee ≤ out) : Shares.Fits (s.fees.toInt + fee) := by
  obtain ⟨a', s', found', stored', -, positive, sum⟩ := backed.supply
  rw [found] at found'
  cases found'
  rw [stored] at stored'
  cases stored'
  have held := coreHeld_nonneg backed
  have bound := backed.bounded
  rw [Shares.toInt_maxSupply] at bound
  unfold Shares.Fits Shares.minValue Shares.maxValue
  omega

end Database

namespace Operation

theorem scheduledFee_nonneg (op : Operation) (schedule : FeeSchedule) :
    0 ≤ (op.scheduledFee schedule).toInt := by
  have clamped : ∀ fee, 0 ≤ (Fee.clamp fee).toInt := by
    intro fee
    unfold Fee.clamp Fee.maxFee
    rw [Int64.toInt_ofNat_of_lt (by omega)]
    omega
  unfold scheduledFee FeeSchedule.fee
  dsimp only
  split
  · exact clamped _
  · exact clamped _

-- A fee is taken from its payer, and the fees that have been collected have room for it.
theorem charge_moves (grounded : db.Grounded) (backed : db.Backed total 0) (name : String)
    (payer : AccountId) (fee : Shares) (nonneg : 0 ≤ fee.toInt)
    (enough : fee.toInt ≤ (db.holding payer coreAsset).toInt) :
    (-fee).toInt = -fee.toInt ∧ ∃ (left : Database) (a : AssetInfo) (s : Supply),
      Write.adjust name payer coreAsset (-fee) db = (.ok (), left) ∧
      db.Adjusted total 0 payer (-fee.toInt) left ∧
      left.row? .asset coreAsset.number = some a ∧ left.row? .supply a.supply.number = some s ∧
      Shares.Fits (s.fees.toInt + fee.toInt) := by
  have negated : (-fee).toInt = -fee.toInt := Shares.toInt_neg_of_nonneg nonneg
  obtain ⟨_, left, run, adjusted⟩ := Write.adjust_ends grounded backed name (-fee)
    (by omega : 0 ≤ (db.holding payer coreAsset).toInt + (-fee).toInt) (by omega)
  rw [negated] at adjusted
  obtain ⟨a, s, found, stored, -⟩ := adjusted.backed.supply
  exact ⟨negated, left, a, s, run, adjusted, found, stored,
    adjusted.backed.fees_fit found stored nonneg (by omega)⟩

theorem charge_ends (grounded : db.Grounded) (backed : db.Backed total 0) (name : String)
    (payer : AccountId) (fee : Shares)
    (enough : 0 < fee.toInt → fee.toInt ≤ (db.holding payer coreAsset).toInt) :
    (charge name payer fee).Ends db fun _ after => after.Grounded ∧ after.Backed total 0 := by
  unfold charge
  split
  · rename_i positive
    rw [Shares.pos_iff] at positive
    obtain ⟨-, left, a, s, run, adjusted, found, stored, fits⟩ :=
      charge_moves grounded backed name payer fee (by omega) (enough positive)
    have paid : (Write.adjust name payer coreAsset (-fee)).Ends db fun _ mid => mid = left :=
      ⟨(), left, run, rfl⟩
    apply paid.bind
    intro _ mid same
    obtain rfl := same
    refine Write.get_ends name (get_of_row? found) ?_
    refine (Write.modify_ends adjusted.grounded.sound name a.supply stored
      fun m other beside collides => absurd collides (Table.not_collides_of_unlisted rfl)).weaken ?_
    intro _ after given
    obtain ⟨puts, next⟩ := given
    refine ⟨adjusted.grounded.puts puts (Nat.le_of_eq next.symm) (by simp), ?_⟩
    have collected := adjusted.backed.collect found stored puts (by omega) rfl
      (Shares.toInt_add_of_fits fits) (by omega)
    rwa [show (0 : Int) - -fee.toInt - fee.toInt = 0 by omega] at collected
  · exact pure_ends ⟨grounded, backed⟩

end Operation

theorem Context.requireHolding_eq_ok {owner : AccountId} {asset : AssetId} {required : Shares}
    (ok : c.requireHolding owner asset required = .ok ()) :
    required.toInt ≤ (c.db.holding owner asset).toInt := by
  unfold requireHolding at ok
  dsimp only at ok
  split at ok
  · cases ok
  · rename_i enough
    rw [Int64.lt_iff_toInt_lt] at enough
    omega

namespace Operation

theorem require_eq_ok {holds : Bool} {reason : String} (ok : require holds reason = .ok ()) :
    holds = true := by
  unfold require at ok
  split at ok
  · assumption
  · cases ok

theorem validate_eq_ok {op : Operation} (validated : op.validate = .ok ()) : op.checkPayload = .ok () := by
  unfold validate at validated
  split at validated
  · rename_i ok
    obtain ⟨_, -, checked⟩ := exists_of_bind_eq_ok ok
    exact checked
  · cases validated

theorem validate_transfer {p : Transfer} (validated : (transfer p).validate = .ok ()) :
    p.sender ≠ p.receiver ∧ 0 < p.amount.amount.toInt := by
  obtain ⟨_, different, rest⟩ := exists_of_bind_eq_ok (validate_eq_ok validated)
  obtain ⟨_, positive, -⟩ := exists_of_bind_eq_ok rest
  exact ⟨of_decide_eq_true (require_eq_ok different),
    Shares.pos_iff.mp (of_decide_eq_true (require_eq_ok positive))⟩

end Operation

-- There is no asset but the core asset, and of that the sender has enough for the fee as well.
theorem Rule.transfer_examined (grounded : c.db.Grounded) (backed : c.db.Backed total 0)
    {p : Transfer} {plan : transfer.Plan} (examined : transfer.examine c p = .ok plan) :
    p.amount.asset = coreAsset ∧
      (0 ≤ p.amount.amount.toInt + c.fee.toInt →
        p.amount.amount.toInt + c.fee.toInt ≤ (c.db.holding p.sender coreAsset).toInt) := by
  obtain ⟨_, -, rest⟩ := exists_of_bind_eq_ok examined
  obtain ⟨_, -, rest⟩ := exists_of_bind_eq_ok rest
  obtain ⟨a, got, required⟩ := exists_of_bind_eq_ok rest
  have core : p.amount.asset = coreAsset :=
    congrArg RecordId.mk (backed.single _ a (Context.get_eq_ok got))
  refine ⟨core, fun nonneg => ?_⟩
  have enough := Context.requireHolding_eq_ok required
  rw [if_pos core, core, Shares.toInt_addClamped] at enough
  have range := holding_range grounded.sound backed p.sender
  have held := coreHeld_le backed
  have bound := backed.bounded
  rw [Shares.toInt_maxSupply] at bound
  unfold Shares.minValue Shares.maxValue at enough
  omega

theorem Rule.transfer_moves (grounded : c.db.Grounded) (backed : c.db.Backed total 0)
    (nonneg : 0 ≤ c.fee.toInt) {p : Transfer} {plan : transfer.Plan}
    (positive : 0 < p.amount.amount.toInt) (examined : transfer.examine c p = .ok plan) (name : String) :
    (-p.amount.amount).toInt = -p.amount.amount.toInt ∧ ∃ taken given : Database,
      Write.adjust name p.sender p.amount.asset (-p.amount.amount) c.db = (.ok (), taken) ∧
      c.db.Adjusted total 0 p.sender (-p.amount.amount.toInt) taken ∧
      Write.adjust name p.receiver p.amount.asset p.amount.amount taken = (.ok (), given) ∧
      taken.Adjusted total p.amount.amount.toInt p.receiver p.amount.amount.toInt given := by
  obtain ⟨core, left⟩ := transfer_examined grounded backed examined
  have left := left (by omega)
  have negated : (-p.amount.amount).toInt = -p.amount.amount.toInt :=
    Shares.toInt_neg_of_nonneg (by omega)
  obtain ⟨_, taken, first, pays⟩ := Write.adjust_ends grounded backed name (-p.amount.amount)
    (by omega : 0 ≤ (c.db.holding p.sender coreAsset).toInt + (-p.amount.amount).toInt) (by omega)
  rw [negated] at pays
  have pending := pays.backed
  rw [Int.zero_sub, Int.neg_neg] at pending
  have range := holding_range pays.grounded.sound pending p.receiver
  obtain ⟨_, given, second, gets⟩ := Write.adjust_ends pays.grounded pending name p.amount.amount
    (by omega : 0 ≤ (taken.holding p.receiver coreAsset).toInt + p.amount.amount.toInt) (by omega)
  rw [core]
  exact ⟨negated, taken, given, first, pays, second, gets⟩

theorem Rule.transfer_settles (grounded : c.db.Grounded) (backed : c.db.Backed total 0)
    (nonneg : 0 ≤ c.fee.toInt) {p : Transfer} {plan : transfer.Plan} (different : p.sender ≠ p.receiver)
    (positive : 0 < p.amount.amount.toInt) (examined : transfer.examine c p = .ok plan)
    (time : Timestamp) :
    (transfer.carryOut time plan p).Ends c.db fun _ after =>
      after.Grounded ∧ after.Backed total 0 ∧ c.fee.toInt ≤ (after.holding p.sender coreAsset).toInt := by
  obtain ⟨-, left⟩ := transfer_examined grounded backed examined
  have left := left (by omega)
  obtain ⟨-, taken, given, first, pays, second, gets⟩ :=
    transfer_moves grounded backed nonneg positive examined OperationKind.transfer.name
  refine ⟨.nothing, given, ?_, gets.grounded, ?_, ?_⟩
  · unfold transfer
    simp only [bind_apply, first, second]
    rfl
  · have settled := gets.backed
    rwa [Int.sub_self] at settled
  · rw [gets.apart p.sender different, pays.holding]
    omega

namespace Operation

theorem money_not_mem_written {k : OperationKind} (other : k ≠ .transfer) :
    .asset ∉ k.written ∧ .supply ∉ k.written ∧ .balance ∉ k.written := by
  cases k <;> first | exact absurd rfl other | decide

theorem carryOut_grounded (grounded : c.db.Grounded) (op : Operation) (other : op.kind ≠ .transfer)
    {plan : op.Plan} (examined : op.examine c = .ok plan) (time : Timestamp) :
    (op.carryOut time plan).Ends c.db fun _ after => after.Grounded := by
  cases op with
  | transfer p => exact absurd rfl other
  | createAccount p => exact Rule.createAccount_settles grounded examined time
  | createRoom p => exact Rule.createRoom_settles grounded examined time
  | updateRoom p => exact Rule.updateRoom_settles grounded examined time
  | addParticipant p => exact Rule.addParticipant_settles grounded examined time
  | removeParticipant p => exact Rule.removeParticipant_settles grounded examined time
  | rotateKey p => exact Rule.rotateKey_settles grounded examined time
  | deleteRoom p => exact Rule.deleteRoom_settles grounded examined time
  | createSport p => exact Rule.createSport_settles grounded plan p time
  | updateSport p => exact Rule.updateSport_settles grounded examined time
  | deleteSport p => exact Rule.deleteSport_settles grounded examined time
  | createEventGroup p => exact Rule.createEventGroup_settles grounded plan p time
  | updateEventGroup p => exact Rule.updateEventGroup_settles grounded examined time
  | deleteEventGroup p => exact Rule.deleteEventGroup_settles grounded examined time

-- What is carried out leaves the payer with the fee, if it had the fee before.
theorem carryOut_ends (grounded : c.db.Grounded) (backed : c.db.Backed total 0) (nonneg : 0 ≤ c.fee.toInt)
    {op : Operation} (validated : op.validate = .ok ()) {plan : op.Plan}
    (examined : op.examine c = .ok plan)
    (enough : 0 < c.fee.toInt → c.fee.toInt ≤ (c.db.holding op.payer coreAsset).toInt) (time : Timestamp) :
    (op.carryOut time plan).Ends c.db fun _ after => after.Grounded ∧ after.Backed total 0 ∧
      (0 < c.fee.toInt → c.fee.toInt ≤ (after.holding op.payer coreAsset).toInt) := by
  by_cases transfers : op.kind = .transfer
  · cases op with
    | transfer p =>
      obtain ⟨different, positive⟩ := validate_transfer validated
      exact (Rule.transfer_settles grounded backed nonneg different positive examined time).weaken
        fun _ _ ⟨grounded, backed, left⟩ => ⟨grounded, backed, fun _ => left⟩
    | _ => cases transfers
  · obtain ⟨asset, supply, balance⟩ := money_not_mem_written transfers
    refine ((carryOut_grounded grounded op transfers examined time).edited
      (carryOut_edits op time plan)).weaken ?_
    intro _ after given
    obtain ⟨settled, edited⟩ := given
    refine ⟨settled, backed.edited grounded edited asset supply balance, ?_⟩
    rw [holding_congr (contents_congr (edited.tables balance))]
    exact enough

theorem approve_eq_ok {op : Operation} {approval : op.Approval} (sound : c.db.Sound)
    (approved : op.approve c = .ok approval) :
    approval.payer = op.payer ∧ op.examine c = .ok approval.plan ∧
      (0 < c.fee.toInt → c.fee.toInt ≤ (c.db.holding op.payer coreAsset).toInt) := by
  unfold approve at approved
  dsimp only at approved
  split at approved
  · cases approved
  split at approved
  · cases approved
  obtain ⟨payer, got, rest⟩ := exists_of_bind_eq_ok approved
  have same : payer.id = op.payer := congrArg RecordId.mk (sound.numbered (Context.get_eq_ok got))
  split at rest
  · obtain ⟨_, required, rest⟩ := exists_of_bind_eq_ok rest
    obtain ⟨plan, examined, made⟩ := exists_of_bind_eq_ok rest
    cases made
    have enough := Context.requireHolding_eq_ok required
    rw [same] at enough
    exact ⟨same, examined, fun _ => enough⟩
  · rename_i free
    obtain ⟨plan, examined, made⟩ := exists_of_bind_eq_ok rest
    cases made
    rw [Shares.pos_iff] at free
    exact ⟨same, examined, fun positive => absurd positive free⟩

-- On a database that is grounded and whose core asset is backed, what has been approved is carried
-- out and charged for without failing.
theorem settle_ends (grounded : c.db.Grounded) (backed : c.db.Backed total 0) (nonneg : 0 ≤ c.fee.toInt)
    {op : Operation} (validated : op.validate = .ok ()) {approval : op.Approval}
    (approved : op.approve c = .ok approval) (time : Timestamp) :
    (op.settle time c.fee (some approval)).Ends c.db fun _ after =>
      after.Grounded ∧ after.Backed total 0 := by
  obtain ⟨payer, examined, enough⟩ := approve_eq_ok grounded.sound approved
  apply (carryOut_ends grounded backed nonneg validated examined enough time).bind
  intro outcome mid given
  obtain ⟨grounded, backed, left⟩ := given
  refine (charge_ends grounded backed op.name approval.payer c.fee ?_).bind fun _ _ holds => pure_ends holds
  rwa [payer]

end Operation

end RoomLedger
