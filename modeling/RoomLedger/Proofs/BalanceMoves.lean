import RoomLedger.Proofs.ProperChanges
import RoomLedger.Proofs.RuleSteps

namespace RoomLedger

open Database Change

variable {db after : Database} {total : Int} {c : Context} {time : Timestamp} {outcome : Outcome}
  {payer account : AccountId} {asset : AssetId} {fee : Shares}

namespace Database

def collected? (db : Database) : Option Shares := do
  let core ← (db.get .asset coreAsset.id).toOption
  let supply ← (db.get .supply core.supply.id).toOption
  return supply.fees

theorem collected?_eq {core : AssetInfo} {supply : Supply} (found : db.row? .asset 0 = some core)
    (stored : db.row? .supply core.supply.number = some supply) : db.collected? = some supply.fees := by
  unfold collected?
  rw [show db.get .asset coreAsset.id = .ok core from get_of_row? found]
  change ((db.get .supply core.supply.id).toOption.bind fun supply => some supply.fees) = _
  rw [RecordId.id, get_of_row? stored]
  rfl

theorem collected?_congr (assets : after.contents.get .asset = db.contents.get .asset)
    (supplies : after.contents.get .supply = db.contents.get .supply) : after.collected? = db.collected? := by
  unfold collected?
  simp only [get_congr assets, get_congr supplies]

-- There is no asset but the core asset.
theorem holding_foreign (sound : db.Sound) (backed : db.Backed total 0) (foreign : asset ≠ coreAsset) :
    db.holding account asset = 0 := by
  refine holding_of_none sound fun n b stored same => foreign ?_
  rw [← same.2]
  exact (backed.balances n b stored).1

end Database

namespace Operation

-- What an account gets of an asset by an operation, its fee apart.
def moved (account : AccountId) (asset : AssetId) : Operation → Int
  | transfer p =>
    if asset = p.amount.asset then
      (if account = p.receiver then p.amount.amount.toInt else 0) -
        (if account = p.sender then p.amount.amount.toInt else 0)
    else 0
  | _ => 0

theorem moved_nonneg {op : Operation} (validated : op.validate = .ok ()) (other : account ≠ op.payer) :
    0 ≤ op.moved account asset := by
  cases op with
  | transfer p =>
    have positive := (validate_transfer validated).2
    have sender : account ≠ p.sender := other
    simp only [moved, if_neg sender]
    split
    · split <;> omega
    · exact Int.le_refl 0
  | _ => exact Int.le_refl 0

theorem Rule.transfer_moved (grounded : c.db.Grounded) (backed : c.db.Backed total 0) (nonneg : 0 ≤ c.fee.toInt)
    {p : Transfer} {plan : Rule.transfer.Plan} (validated : (transfer p).validate = .ok ())
    (examined : Rule.transfer.examine c p = .ok plan)
    (run : Rule.transfer.carryOut time plan p c.db = (.ok outcome, after)) :
    (after.holding account coreAsset).toInt =
      (c.db.holding account coreAsset).toInt + (transfer p).moved account coreAsset := by
  obtain ⟨different, positive⟩ := validate_transfer validated
  obtain ⟨core, -⟩ := Rule.transfer_examined grounded backed examined
  obtain ⟨-, taken, given, first, pays, second, gets⟩ :=
    Rule.transfer_moves grounded backed nonneg positive examined OperationKind.transfer.name
  obtain ⟨_, one, first', run⟩ := bind_eq_ok run
  obtain ⟨_, two, second', left⟩ := bind_eq_ok run
  cases left
  cases first.symm.trans first'
  cases second.symm.trans second'
  simp only [moved, core, if_true]
  by_cases receives : account = p.receiver
  · subst receives
    rw [gets.holding, pays.apart _ (Ne.symm different), if_pos rfl, if_neg (Ne.symm different)]
    omega
  · rw [gets.apart account receives, if_neg receives]
    by_cases sends : account = p.sender
    · subst sends
      rw [pays.holding, if_pos rfl]
      omega
    · rw [pays.apart account sends, if_neg sends]
      omega

theorem carryOut_moved (grounded : c.db.Grounded) (backed : c.db.Backed total 0) (nonneg : 0 ≤ c.fee.toInt)
    {op : Operation} (validated : op.validate = .ok ()) {plan : op.Plan} (examined : op.examine c = .ok plan)
    (run : op.carryOut time plan c.db = (.ok outcome, after)) :
    (after.holding account coreAsset).toInt =
      (c.db.holding account coreAsset).toInt + op.moved account coreAsset := by
  by_cases transfers : op.kind = .transfer
  · cases op with
    | transfer p => exact Rule.transfer_moved grounded backed nonneg validated examined run
    | _ => cases transfers
  · have edited := (carryOut_edits op time plan).edited run
    obtain ⟨-, -, balance⟩ := money_not_mem_written transfers
    have still : op.moved account coreAsset = 0 := by
      cases op with
      | transfer p => exact absurd rfl transfers
      | _ => rfl
    rw [holding_congr (contents_congr (edited.tables balance)), still, Int.add_zero]

theorem carryOut_collected {op : Operation} {plan : op.Plan}
    (run : op.carryOut time plan db = (.ok outcome, after)) : after.collected? = db.collected? := by
  have edited := (carryOut_edits op time plan).edited run
  have unwritten : ∀ k : OperationKind, Kind.asset ∉ k.written ∧ Kind.supply ∉ k.written := by
    intro k
    cases k <;> decide
  exact collected?_congr (contents_congr (edited.tables (unwritten op.kind).1))
    (contents_congr (edited.tables (unwritten op.kind).2))

theorem moved_foreign (grounded : c.db.Grounded) (backed : c.db.Backed total 0) {op : Operation} {plan : op.Plan}
    (examined : op.examine c = .ok plan) (foreign : asset ≠ coreAsset) : op.moved account asset = 0 := by
  cases op with
  | transfer p =>
    have core := (Rule.transfer_examined grounded backed examined).1
    exact if_neg fun same => foreign (same.trans core)
  | _ => rfl

theorem charge_collects (grounded : db.Grounded) (backed : db.Backed total 0) (nonneg : 0 ≤ fee.toInt)
    (enough : 0 < fee.toInt → fee.toInt ≤ (db.holding payer coreAsset).toInt) {name : String}
    (run : charge name payer fee db = (.ok (), after)) :
    (∀ account, (after.holding account coreAsset).toInt =
      (db.holding account coreAsset).toInt - if account = payer then fee.toInt else 0) ∧
    ∃ before now, db.collected? = some before ∧ after.collected? = some now ∧
      now.toInt = before.toInt + fee.toInt := by
  obtain ⟨core, supply, found, stored, -⟩ := backed.supply
  have before := collected?_eq found stored
  unfold charge at run
  split at run
  · rename_i positive
    obtain ⟨-, left, core', supply', paid, adjusted, found', stored', fits⟩ :=
      charge_moves grounded backed name payer fee nonneg (enough (Shares.pos_iff.mp positive))
    obtain ⟨_, mid, adjust, run⟩ := bind_eq_ok run
    cases paid.symm.trans adjust
    obtain ⟨_, _, asked, run⟩ := bind_eq_ok run
    obtain ⟨answered, rfl⟩ := Prod.mk.inj (adapt_eq_ok asked)
    cases (get_of_row? found').symm.trans answered
    obtain ⟨pool, there, puts⟩ := Write.modify_eq_ok adjusted.grounded.sound run (fun _ => rfl)
    cases stored'.symm.trans there
    have still : ∀ j, j ≠ .balance → ∀ n, left.row? j n = db.row? j n := fun j other n =>
      row?_congr (adjusted.others j other) n
    cases (found.symm.trans (still .asset (by simp) _).symm).trans found'
    cases (stored.symm.trans (still .supply (by simp) _).symm).trans stored'
    have kept : ∀ account, after.holding account coreAsset = left.holding account coreAsset := fun account =>
      holding_congr (contents_congr (puts.others .balance (by simp))) account coreAsset
    refine ⟨fun account => ?_, supply.fees, supply.fees + fee, before, ?_, Shares.toInt_add_of_fits fits⟩
    · rw [kept]
      by_cases pays : account = payer
      · subst pays
        rw [adjusted.holding, if_pos rfl]
        omega
      · rw [adjusted.apart account pays, if_neg pays, Int.sub_zero]
    · have found'' : after.row? .asset 0 = some core := by
        rw [puts.row?_other (by simp)]
        exact found'
      exact collected?_eq found'' (by rw [puts.rows, if_pos rfl])
  · rename_i free
    rw [Shares.pos_iff] at free
    cases run
    exact ⟨fun account => by split <;> omega, _, _, before, before, by omega⟩

-- What a rule has written leaves the payer with the fee, which is what is charged then.
theorem Performed.settled {op : Operation} (performed : op.Performed c outcome after) (standing : c.db.Standing total) :
    ∃ (plan : op.Plan) (mid : Database), op.examine c = .ok plan ∧
      op.carryOut c.time plan c.db = (.ok outcome, mid) ∧ mid.Grounded ∧ mid.Backed total 0 ∧
      (0 < c.fee.toInt → c.fee.toInt ≤ (mid.holding op.payer coreAsset).toInt) ∧
      charge op.name op.payer c.fee mid = (.ok (), after) := by
  obtain ⟨plan, mid, examined, enough, carried, charged⟩ := performed.stages standing.grounded.sound
  obtain ⟨_, _, run, grounded, backed, left⟩ :=
    carryOut_ends standing.grounded standing.backed performed.fee performed.validated examined enough c.time
  cases carried.symm.trans run
  exact ⟨plan, mid, examined, carried, grounded, backed, left, charged⟩

theorem Performed.collects {op : Operation} (performed : op.Performed c outcome after)
    (standing : c.db.Standing total) :
    ∃ before now, c.db.collected? = some before ∧ after.collected? = some now ∧
      now.toInt = before.toInt + c.fee.toInt := by
  obtain ⟨plan, mid, -, carried, grounded, backed, enough, charged⟩ := performed.settled standing
  rw [← carryOut_collected carried]
  exact (charge_collects grounded backed performed.fee enough charged).2

theorem Performed.moves {op : Operation} (performed : op.Performed c outcome after) (standing : c.db.Standing total)
    (account : AccountId) (asset : AssetId) :
    (after.holding account asset).toInt = (c.db.holding account asset).toInt
      - (if account = op.payer ∧ asset = coreAsset then c.fee.toInt else 0) + op.moved account asset := by
  have grounded := standing.grounded
  have backed := standing.backed
  obtain ⟨plan, mid, examined, carried, grounded', backed', enough', charged⟩ := performed.settled standing
  obtain ⟨_, _, run, -, backed''⟩ := charge_ends grounded' backed' op.name op.payer c.fee enough'
  cases charged.symm.trans run
  by_cases core : asset = coreAsset
  · subst core
    rw [(charge_collects grounded' backed' performed.fee enough' charged).1,
      carryOut_moved grounded backed performed.fee performed.validated examined carried]
    simp only [and_true]
    omega
  · rw [holding_foreign (performed.sound grounded.sound) backed'' core, holding_foreign grounded.sound backed core,
      moved_foreign grounded backed examined core, if_neg fun both => core both.2]
    rfl

end Operation

end RoomLedger
