import RoomLedger.Proofs.ApprovalSafety

namespace RoomLedger

open Database Change

variable {total : Int}

namespace Database

-- All that was granted is either held by an account or has been collected as a fee.
structure Conserves (db : Database) (granted : Int) : Prop where
  supply : ∃ (asset : AssetInfo) (supply : Supply), db.get .asset coreAsset.id = .ok asset ∧
    db.get .supply asset.supply.id = .ok supply ∧
    db.coreHeld + supply.fees.toInt = supply.current.toInt ∧ supply.current.toInt = granted ∧
    supply.current ≤ maxSupply ∧ 0 ≤ supply.fees
  balances : ∀ b ∈ db.rows .balance, 0 ≤ b.amount

theorem Standing.conserves {db : Database} (standing : db.Standing total) : db.Conserves total := by
  have backed := standing.backed
  obtain ⟨asset, supply, found, stored, current, fees, sum⟩ := backed.supply
  refine ⟨⟨asset, supply, get_of_row? found, get_of_row? stored, by omega, current, ?_, ?_⟩, ?_⟩
  · rw [Int64.le_iff_toInt_le, current]
    exact backed.bounded
  · exact Shares.nonneg_iff.mpr fees
  · intro b listed
    obtain ⟨n, present⟩ := mem_rows_iff.mp listed
    exact Shares.nonneg_iff.mpr (backed.balances n b present).2

end Database

structure Write.Exactly (operation : String) (owner : AccountId) (asset : AssetId) (delta : Shares)
    (before after : Database) : Prop where
  fits : Shares.Fits ((before.holding owner asset).toInt + delta.toInt)
  run : Write.adjust operation owner asset delta before = (.ok (), after)

namespace Operation

-- No computation on amounts that a settlement makes passes the range of an amount.
structure SettlesExactly (op : Operation) (c : Context) (approval : op.Approval) (time : Timestamp) :
    Prop where
  moved : ∀ p, op = .transfer p → (-p.amount.amount).toInt = -p.amount.amount.toInt ∧
    ∃ taken given,
      Write.Exactly op.name p.sender p.amount.asset (-p.amount.amount) c.db taken ∧
      Write.Exactly op.name p.receiver p.amount.asset p.amount.amount taken given
  charged : 0 < c.fee → (-c.fee).toInt = -c.fee.toInt ∧
    ∃ (outcome : Outcome) (carried left : Database) (asset : AssetInfo) (supply : Supply),
      op.carryOut time approval.plan c.db = (.ok outcome, carried) ∧
      Write.Exactly op.name approval.payer coreAsset (-c.fee) carried left ∧
      left.get .asset coreAsset.id = .ok asset ∧ left.get .supply asset.supply.id = .ok supply ∧
      (supply.fees + c.fee).toInt = supply.fees.toInt + c.fee.toInt

theorem settles_exactly {op : Operation} {c : Context} (standing : c.db.Standing total)
    (nonneg : 0 ≤ c.fee.toInt) (validated : op.validate = .ok ()) {approval : op.Approval}
    (approved : op.approve c = .ok approval) (time : Timestamp) :
    op.SettlesExactly c approval time := by
  have grounded := standing.grounded
  have backed := standing.backed
  obtain ⟨payer, examined, enough⟩ := approve_eq_ok grounded.sound approved
  refine ⟨?_, fun positive => ?_⟩
  · intro p same
    obtain rfl := same
    obtain ⟨-, positive⟩ := validate_transfer validated
    have core : p.amount.asset = coreAsset := (Rule.transfer_examined grounded backed examined).1
    obtain ⟨negated, taken, given, first, pays, second, gets⟩ :=
      Rule.transfer_moves grounded backed nonneg positive examined (transfer p).name
    refine ⟨negated, taken, given, ⟨?_, first⟩, ⟨?_, second⟩⟩
    · rw [core, negated, ← pays.holding]
      exact Shares.fits_toInt _
    · rw [core, ← gets.holding]
      exact Shares.fits_toInt _
  -- The fee is taken after the rule has written, and the payer is left with enough for it.
  · obtain ⟨outcome, carried, run, settled, still, kept⟩ :=
      carryOut_ends grounded backed nonneg validated examined enough time
    have left := kept (Shares.pos_iff.mp positive)
    rw [← payer] at left
    obtain ⟨negated, left, asset, supply, paid, adjusted, found, stored, fits⟩ :=
      charge_moves settled still op.name approval.payer c.fee nonneg left
    refine ⟨negated, outcome, carried, left, asset, supply, run, ⟨?_, paid⟩, get_of_row? found,
      get_of_row? stored, Shares.toInt_add_of_fits fits⟩
    rw [negated, ← adjusted.holding]
    exact Shares.fits_toInt _

end Operation

namespace Chain

variable {ω : Type} {first last : Chain ω}

theorem supply_conserved [Observer ω] {config : Config} {genesis : Genesis} {observers : List ω}
    {answers : List (Except ChainError Unit)} (started : start config genesis observers = .ok first)
    (run : Run first answers last) :
    last.db.Conserves genesis.granted ∧
    ∀ time db results op globals approval, last.Examined time db results →
      last.Approved time db results op globals approval →
        op.SettlesExactly ⟨db, last.config, time, op.scheduledFee globals.parameters.fees, results⟩
          approval time := by
  have steady := run_steady (start_steady started).1 run
  refine ⟨steady.standing.conserves, ?_⟩
  intro time db results op globals approval examined approved
  exact Operation.settles_exactly (c := ⟨db, last.config, time, _, results⟩) (examined.standing steady)
    (op.scheduledFee_nonneg _) approved.validated approved.approved time

def paid : Chain Watcher := (pushOperation pay begun).2

theorem paid_run : Run founded [.ok (), .ok ()] paid := .call begun_run (.operation pay) (by rfl)

theorem pay_approved_again : paid.Approved ⟨7⟩ paid.db.push [] pay rules ⟨⟨2⟩, ()⟩ :=
  ⟨by rfl, by rfl, by rfl⟩

theorem supply_conserved_paid :
    start .permissive funded [Watcher.idle] = .ok founded ∧ Run founded [.ok (), .ok ()] paid ∧
    paid.Approved ⟨7⟩ paid.db.push [] pay rules ⟨⟨2⟩, ()⟩ ∧
    paid.db.Conserves 1000000000 ∧ paid.db.coreHeld = 998000000 ∧
    pay.SettlesExactly ⟨paid.db.push, .permissive, ⟨7⟩, pay.scheduledFee rules.parameters.fees, []⟩
      ⟨⟨2⟩, ()⟩ ⟨7⟩ := by
  obtain ⟨conserves, exact⟩ := supply_conserved founded_started paid_run
  exact ⟨founded_started, paid_run, pay_approved_again, conserves, by rfl,
    exact _ _ _ _ _ _ .alone pay_approved_again⟩

end Chain

end RoomLedger
