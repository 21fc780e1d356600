import RoomLedger.Proofs.FeePayments
import RoomLedger.Proofs.ReachedStates
import RoomLedger.Proofs.SupplyConservation

namespace RoomLedger

open Database Change

variable {db after : Database} {total : Int} {c : Context} {config : Config} {time : Timestamp}
  {results : List Outcome} {outcome : Outcome} {payer : AccountId} {fee amount : Shares}

namespace Operation

-- What accounts hold changes by the fee and by what a transfer moves, and by nothing else.
structure Charges (op : Operation) (db : Database) (fee : Shares) (after : Database) : Prop where
  asset : op.fee.asset = coreAsset
  nonneg : 0 ≤ fee
  offered : fee ≤ op.fee.amount
  collected : ∃ before now, db.collected? = some before ∧ after.collected? = some now ∧
    now.toInt = before.toInt + fee.toInt
  held : ∀ account asset, (after.holding account asset).toInt = (db.holding account asset).toInt
    - (if account = op.payer ∧ asset = coreAsset then fee.toInt else 0) + op.moved account asset

theorem Performed.charges {op : Operation} (performed : op.Performed c outcome after)
    (standing : c.db.Standing total) (affords : c.db.Affords c.fee op) : op.Charges c.db c.fee after :=
  ⟨affords.asset, Shares.nonneg_iff.mpr performed.fee, affords.offered, performed.collects standing,
    performed.moves standing⟩

def offering (amount : Shares) : Operation → Operation
  | transfer p => transfer { p with fee.amount := amount }
  | createAccount p => createAccount { p with fee.amount := amount }
  | createRoom p => createRoom { p with fee.amount := amount }
  | updateRoom p => updateRoom { p with fee.amount := amount }
  | addParticipant p => addParticipant { p with fee.amount := amount }
  | removeParticipant p => removeParticipant { p with fee.amount := amount }
  | rotateKey p => rotateKey { p with fee.amount := amount }
  | deleteRoom p => deleteRoom { p with fee.amount := amount }
  | createSport p => createSport { p with fee.amount := amount }
  | updateSport p => updateSport { p with fee.amount := amount }
  | deleteSport p => deleteSport { p with fee.amount := amount }
  | createEventGroup p => createEventGroup { p with fee.amount := amount }
  | updateEventGroup p => updateEventGroup { p with fee.amount := amount }
  | deleteEventGroup p => deleteEventGroup { p with fee.amount := amount }

theorem checkPayload_offering (op : Operation) : (op.offering amount).checkPayload = op.checkPayload := by
  cases op <;> rfl

theorem fee_offering (op : Operation) : (op.offering amount).fee = { op.fee with amount := amount } := by
  cases op <;> rfl

theorem payer_offering (op : Operation) : (op.offering amount).payer = op.payer := by
  cases op <;> rfl

theorem scheduledFee_offering (op : Operation) (schedule : FeeSchedule) :
    (op.offering amount).scheduledFee schedule = op.scheduledFee schedule := by
  cases op <;> rfl

theorem validate_offering {op : Operation} (nonneg : 0 ≤ amount) (validated : op.validate = .ok ()) :
    (op.offering amount).validate = .ok () := by
  unfold validate
  rw [fee_offering, checkPayload_offering, validate_eq_ok validated, decide_eq_true nonneg]
  rfl

-- Neither the examination nor the writing looks at what is offered.
theorem settle_offering (amount : Shares) (payer : AccountId) {op : Operation} {plan : op.Plan}
    (examined : op.examine c = .ok plan) :
    ∃ plan' : (op.offering amount).Plan, (op.offering amount).examine c = .ok plan' ∧
      ∀ time fee, (op.offering amount).settle time fee (some ⟨payer, plan'⟩) =
        op.settle time fee (some ⟨payer, plan⟩) := by
  cases op <;> exact ⟨plan, examined, fun _ _ => rfl⟩

theorem perform_offering {op : Operation} (standing : db.Standing total) (scheduled : db.feeOf? op = some fee)
    (enough : fee ≤ amount) (run : op.perform config time results db = (.ok outcome, after)) :
    (op.offering amount).perform config time results db = (.ok outcome, after) := by
  obtain ⟨validated, globals, approval, found, approved, run⟩ := perform_eq_ok_iff.mp run
  obtain ⟨_, found', rfl⟩ := feeOf?_eq_some_iff.mp scheduled
  cases found.symm.trans found'
  have nonneg := Shares.nonneg_iff.mpr (scheduledFee_nonneg op globals.parameters.fees)
  obtain ⟨paid, examined⟩ := approve_eq_ok_iff.mp approved
  obtain ⟨core, -, payer, held, same⟩ := (Context.findPayer_eq_ok_iff standing.grounded.sound).mp paid
  have paid' : Context.findPayer ⟨db, config, time, op.scheduledFee globals.parameters.fees, results⟩
      (op.offering amount).fee (op.offering amount).payer = .ok approval.payer := by
    rw [fee_offering, payer_offering, Context.findPayer_eq_ok_iff standing.grounded.sound]
    exact ⟨core, enough, payer, held, same⟩
  obtain ⟨plan, examined', settles⟩ := settle_offering amount approval.payer examined
  have approved' : (op.offering amount).approve ⟨db, config, time, op.scheduledFee globals.parameters.fees, results⟩ =
      .ok ⟨approval.payer, plan⟩ := approve_eq_ok_iff.mpr ⟨paid', examined'⟩
  refine perform_eq_ok_iff.mpr ⟨validate_offering (Int64.le_trans nonneg enough) validated, globals,
    ⟨approval.payer, plan⟩, found, ?_, ?_⟩
  · rw [scheduledFee_offering]
    exact approved'
  · rw [scheduledFee_offering, settles]
    exact run

end Operation

namespace Chain

variable {ω : Type} {first last : Chain ω} {genesis : Genesis} {observers : List ω}
  {answers : List (Except ChainError Unit)}

theorem fees_are_charged_once [Observer ω] (started : start config genesis observers = .ok first)
    (run : Run first answers last) (reaches : last.Reaches db) (op : Operation) (time : Timestamp)
    (results : List Outcome) :
    ∃ fee, db.feeOf? op = some fee ∧
      (∀ outcome after, op.perform config time results db = (.ok outcome, after) →
        op.Charges db fee after ∧ ∀ amount, fee ≤ amount →
          (op.offering amount).perform config time results db = (.ok outcome, after)) ∧
      ∀ e after, op.perform config time results db = (.error e, after) → after = db := by
  have standing := reached_standing started run reaches
  obtain ⟨fee, scheduled⟩ := standing.feeOf? op
  refine ⟨fee, scheduled, fun outcome after performed => ⟨?_, fun amount enough => ?_⟩, fun e after refused => ?_⟩
  · obtain ⟨-, affords, -⟩ := (op.perform_accepts_iff standing scheduled).mp ⟨outcome, after, performed⟩
    exact (op.performed_at_fee performed scheduled).charges standing affords
  · exact op.perform_offering standing scheduled enough performed
  · exact op.perform_error standing refused

theorem fees_are_charged_once_again :
    start .permissive funded [Watcher.idle] = .ok founded ∧ Run founded [.ok (), .ok ()] paid ∧
    paid.Reaches paid.db.push ∧ paid.db.push.feeOf? pay = some 2000000 ∧ (2000000 : Shares) ≤ 2500000 ∧
    ∃ outcome after, pay.perform .permissive ⟨7⟩ [] paid.db.push = (.ok outcome, after) ∧
      pay.Charges paid.db.push 2000000 after ∧
      (pay.offering 2500000).perform .permissive ⟨7⟩ [] paid.db.push = (.ok outcome, after) ∧
      after.collected? = some 4000000 ∧ after.holding ⟨2⟩ coreAsset = 995999990 ∧
      after.holding ⟨3⟩ coreAsset = 10 := by
  have examined : paid.Examined ⟨7⟩ paid.db.push [] := .alone
  have reaches : paid.Reaches paid.db.push := .examined examined
  have scheduled : paid.db.push.feeOf? pay = some 2000000 := by rfl
  have performed : ∃ outcome after, pay.perform .permissive ⟨7⟩ [] paid.db.push = (.ok outcome, after) ∧
      after.collected? = some 4000000 ∧ after.holding ⟨2⟩ coreAsset = 995999990 ∧
      after.holding ⟨3⟩ coreAsset = 10 := ⟨_, _, by rfl, by rfl, by rfl, by rfl⟩
  obtain ⟨outcome, after, performed, pool, payer, receiver⟩ := performed
  obtain ⟨_, same, charged, -⟩ := fees_are_charged_once founded_started paid_run reaches pay ⟨7⟩ []
  cases scheduled.symm.trans same
  obtain ⟨charges, offering⟩ := charged outcome after performed
  exact ⟨founded_started, paid_run, reaches, scheduled, by decide, outcome, after, performed, charges,
    offering _ (by decide), pool, payer, receiver⟩

end Chain

end RoomLedger
