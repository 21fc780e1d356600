import RoomLedger.Proofs.BalanceMoves
import RoomLedger.Proofs.CoveredChanges
import RoomLedger.Proofs.RecordLists

namespace RoomLedger

open Database Change

variable {db mid after : Database} {total : Int} {c : Context} {config : Config} {time : Timestamp}
  {results : List Outcome} {payer : AccountId} {fee : Shares}

namespace Database

def feeOf? (db : Database) (op : Operation) : Option Shares :=
  (db.get .globals (⟨0⟩ : GlobalsId).id).toOption.map fun globals => op.scheduledFee globals.parameters.fees

structure Affords (db : Database) (fee : Shares) (op : Operation) : Prop where
  asset : op.fee.asset = coreAsset
  offered : fee ≤ op.fee.amount
  payer : ∃ account ∈ db.rows .account, account.id = op.payer
  held : fee ≤ db.holding op.payer coreAsset

end Database

def Balance.paying (payer : AccountId) (fee : Shares) (b : Balance) : Balance :=
  if b.owner = payer ∧ b.asset = coreAsset then { b with amount := b.amount - fee } else b

def Supply.collecting (pool : SupplyId) (fee : Shares) (s : Supply) : Supply :=
  if s.id = pool then { s with fees := s.fees + fee } else s

theorem Balance.paying_free (b : Balance) : b.paying payer 0 = b := by
  unfold paying
  split <;> simp

theorem Balance.number_paying (b : Balance) : Stored.number (b.paying payer fee) = Stored.number b := by
  unfold paying
  split <;> rfl

theorem Supply.collecting_free {pool : SupplyId} (s : Supply) : s.collecting pool 0 = s := by
  unfold collecting
  split <;> simp

theorem Supply.number_collecting {pool : SupplyId} (s : Supply) :
    Stored.number (s.collecting pool fee) = Stored.number s := by
  unfold collecting
  split <;> rfl

namespace Database

-- The payer's balance of the core asset goes down by the fee, and the fees of that asset go up.
structure Pays (db : Database) (payer : AccountId) (fee : Shares) (after : Database) : Prop where
  balances : after.rows .balance = (db.rows .balance).map (Balance.paying payer fee)
  supplies : ∃ core ∈ db.rows .asset, core.id = coreAsset ∧
    after.rows .supply = (db.rows .supply).map (Supply.collecting core.supply fee)

theorem Pays.congr (pays : mid.Pays payer fee after)
    (same : ∀ k ∈ [Kind.asset, .supply, .balance], mid.rows k = db.rows k) : db.Pays payer fee after := by
  obtain ⟨balances, supplies⟩ := pays
  rw [same .balance (by simp)] at balances
  rw [same .asset (by simp), same .supply (by simp)] at supplies
  exact ⟨balances, supplies⟩

end Database

namespace Context

theorem get_of_row? {k : Kind} {id : RecordId k} {row : k.Row} (stored : c.db.row? k id.number = some row) :
    c.get id = .ok row := by
  unfold get
  rw [RecordId.id, Database.get_of_row? stored]
  rfl

theorem ownedRoom_eq_ok_iff {room : RoomId} {owner : AccountId} {row : Room} : c.ownedRoom room owner = .ok row ↔
    c.db.row? .room room.number = some row ∧ row.owner = owner := by
  constructor
  · exact ownedRoom_eq_ok
  · intro given
    obtain ⟨stored, rfl⟩ := given
    unfold ownedRoom
    rw [get_of_row? stored]
    exact if_pos rfl

theorem requireHolding_of_le {owner : AccountId} {asset : AssetId} {required : Shares}
    (held : required ≤ c.db.holding owner asset) : c.requireHolding owner asset required = .ok () :=
  if_neg (Int64.not_lt.mpr held)

theorem findPayer_eq_ok_iff (sound : c.db.Sound) {offered : Funds} {found : AccountId} :
    c.findPayer offered payer = .ok found ↔ offered.asset = coreAsset ∧ c.fee ≤ offered.amount ∧
      (∃ account ∈ c.db.rows .account, account.id = payer) ∧
      (0 < c.fee → c.fee ≤ c.db.holding payer coreAsset) ∧ found = payer := by
  constructor
  · intro ok
    unfold findPayer at ok
    dsimp only at ok
    split at ok
    · cases ok
    rename_i core
    split at ok
    · cases ok
    rename_i enough
    obtain ⟨account, got, rest⟩ := exists_of_bind_eq_ok ok
    have stored := get_eq_ok got
    obtain rfl : account.id = payer := congrArg RecordId.mk (sound.numbered stored)
    refine ⟨Decidable.not_not.mp core, Int64.not_lt.mp enough, ⟨account, mem_rows_iff.mpr ⟨_, stored⟩, rfl⟩, ?_⟩
    split at rest
    · obtain ⟨_, required, made⟩ := exists_of_bind_eq_ok rest
      cases made
      exact ⟨fun _ => Int64.le_iff_toInt_le.mpr (requireHolding_eq_ok required), rfl⟩
    · rename_i free
      cases rest
      exact ⟨fun charged => absurd charged free, rfl⟩
  · intro given
    obtain ⟨core, enough, ⟨account, listed, rfl⟩, held, rfl⟩ := given
    have got : c.get account.id = .ok account := get_of_row? ((mem_rows sound).mp listed)
    unfold findPayer
    rw [if_neg (Decidable.not_not.mpr core), if_neg (Int64.not_lt.mpr enough), got]
    by_cases charged : 0 < c.fee
    · simp only [bind, Except.bind, if_pos charged, requireHolding_of_le (held charged)]
      rfl
    · simp only [bind, Except.bind, if_neg charged]
      rfl

end Context

namespace Database

theorem feeOf?_eq_some_iff {op : Operation} : db.feeOf? op = some fee ↔
    ∃ globals, db.get .globals (⟨0⟩ : GlobalsId).id = .ok globals ∧ op.scheduledFee globals.parameters.fees = fee := by
  unfold feeOf?
  cases db.get .globals (⟨0⟩ : GlobalsId).id with
  | error e => simp [Except.toOption]
  | ok globals => simp [Except.toOption]

theorem affords_iff (standing : db.Standing total) (nonneg : 0 ≤ fee.toInt) {op : Operation} {found : AccountId} :
    Context.findPayer ⟨db, config, time, fee, results⟩ op.fee op.payer = .ok found ↔
      db.Affords fee op ∧ found = op.payer := by
  rw [Context.findPayer_eq_ok_iff standing.grounded.sound]
  constructor
  · intro given
    obtain ⟨core, offered, payer, held, rfl⟩ := given
    refine ⟨⟨core, offered, payer, ?_⟩, rfl⟩
    by_cases charged : 0 < fee
    · exact held charged
    · rw [Shares.pos_iff] at charged
      have range := (holding_range standing.grounded.sound standing.backed op.payer).1
      exact Int64.le_iff_toInt_le.mpr (by omega)
  · intro given
    obtain ⟨affords, rfl⟩ := given
    exact ⟨affords.asset, affords.offered, affords.payer, fun _ => affords.held, rfl⟩

end Database

namespace Operation

theorem perform_accepts_iff (standing : db.Standing total) {op : Operation} (scheduled : db.feeOf? op = some fee) :
    (∃ outcome after, op.perform config time results db = (.ok outcome, after)) ↔ op.validate = .ok () ∧
      db.Affords fee op ∧ ∃ plan, op.examine ⟨db, config, time, fee, results⟩ = .ok plan := by
  obtain ⟨globals, found, rfl⟩ := feeOf?_eq_some_iff.mp scheduled
  have nonneg := scheduledFee_nonneg op globals.parameters.fees
  constructor
  · intro given
    obtain ⟨outcome, after, run⟩ := given
    obtain ⟨validated, _, approval, found', approved, -⟩ := perform_eq_ok_iff.mp run
    cases found.symm.trans found'
    obtain ⟨paid, examined⟩ := approve_eq_ok_iff.mp approved
    exact ⟨validated, ((affords_iff standing nonneg).mp paid).1, approval.plan, examined⟩
  · intro given
    obtain ⟨validated, affords, plan, examined⟩ := given
    have approved : op.approve ⟨db, config, time, op.scheduledFee globals.parameters.fees, results⟩ =
        .ok ⟨op.payer, plan⟩ :=
      approve_eq_ok_iff.mpr ⟨(affords_iff standing nonneg).mpr ⟨affords, rfl⟩, examined⟩
    obtain ⟨outcome, after, run, -⟩ := (settle_standing (c := ⟨db, config, time, _, results⟩) standing nonneg
      validated approved time).adapt ChainError.breached
    exact ⟨outcome, after, perform_eq_ok_iff.mpr ⟨validated, globals, ⟨op.payer, plan⟩, found, approved, run⟩⟩

theorem performed_at_fee {op : Operation} {outcome : Outcome}
    (run : op.perform config time results db = (.ok outcome, after)) (scheduled : db.feeOf? op = some fee) :
    op.Performed ⟨db, config, time, fee, results⟩ outcome after := by
  obtain ⟨validated, globals, approval, found, approved, run⟩ := perform_eq_ok_iff.mp run
  obtain ⟨_, found', rfl⟩ := feeOf?_eq_some_iff.mp scheduled
  cases found.symm.trans found'
  obtain ⟨answer, mid, carried, run⟩ := bind_eq_ok (adapt_eq_ok run)
  obtain ⟨_, last, charged, left⟩ := bind_eq_ok run
  cases left
  exact ⟨validated, scheduledFee_nonneg op _, approval, mid, approved, carried, charged⟩

-- What is refused has written nothing.
theorem perform_error (standing : db.Standing total) {op : Operation} {e : ChainError}
    (run : op.perform config time results db = (.error e, after)) : after = db := by
  unfold perform at run
  split at run
  · cases run
    rfl
  · cases run
    rfl
  · rename_i globals validated found
    dsimp only at run
    split at run
    · cases run
      rfl
    · rename_i approval approved
      obtain ⟨outcome, last, settled, -⟩ := (settle_standing (c := ⟨db, config, time, _, results⟩) standing
        (scheduledFee_nonneg op _) validated approved time).adapt ChainError.breached
      cases run.symm.trans settled

end Operation

theorem Database.Standing.feeOf? (standing : db.Standing total) (op : Operation) :
    ∃ fee, db.feeOf? op = some fee := by
  obtain ⟨globals, stored⟩ := standing.globals
  exact ⟨_, feeOf?_eq_some_iff.mpr ⟨globals, get_of_row? stored, rfl⟩⟩

theorem Write.adjust_takes (sound : db.Sound) {operation : String} {owner : AccountId} {asset : AssetId}
    {delta : Shares} (taken : delta.toInt < 0)
    (run : Write.adjust operation owner asset delta db = (.ok (), after)) :
    ∃ b : Balance, db.balance? owner asset = some b ∧
      db.Puts .balance b.id.number (some { b with amount := b.amount + delta }) after := by
  obtain ⟨now, here, current, run⟩ := bind_eq_ok run
  cases current
  dsimp only at run
  cases found : db.balance? owner asset with
  | none =>
    rw [found] at run
    have short : (Shares.addExact? 0 delta).filter (fun amount => decide (0 ≤ amount)) = none := by
      refine Option.filter_eq_none_iff.mpr fun amount sum => ?_
      obtain ⟨-, exact⟩ := Shares.addExact?_eq_some_iff.mp sum
      rw [Int64.toInt_zero] at exact
      rw [decide_eq_true_eq, Shares.nonneg_iff]
      omega
    simp only [Option.map_none, Option.getD_none, short] at run
    cases run
  | some b =>
    obtain ⟨stored, rfl, rfl⟩ := balance?_eq_some sound found
    rw [found] at run
    cases sum : (Shares.addExact? b.amount delta).filter (fun amount => decide (0 ≤ amount)) with
    | none =>
      simp only [Option.map_some, Option.getD_some, sum] at run
      cases run
    | some amount =>
      simp only [Option.map_some, Option.getD_some, sum] at run
      obtain ⟨row, same, puts⟩ := modify_eq_ok sound run (fun _ => rfl)
      rw [stored] at same
      cases same
      rw [Shares.addExact?_eq_add (Option.eq_some_of_filter_eq_some sum)] at puts
      exact ⟨b, rfl, puts⟩

namespace Operation

theorem charge_pays (sound : db.Sound) (backed : db.Backed total 0) (nonneg : 0 ≤ fee.toInt) {name : String}
    (run : charge name payer fee db = (.ok (), after)) : db.Pays payer fee after := by
  unfold charge at run
  split at run
  · rename_i positive
    rw [Shares.pos_iff] at positive
    obtain ⟨_, mid, adjusted, run⟩ := bind_eq_ok run
    obtain ⟨b, paid, puts⟩ := Write.adjust_takes sound (by rw [Shares.toInt_neg_of_nonneg nonneg]; omega) adjusted
    obtain ⟨stored, owner, asset⟩ := balance?_eq_some sound paid
    obtain ⟨core, _, asked, run⟩ := bind_eq_ok run
    obtain ⟨answered, rfl⟩ := Prod.mk.inj (adapt_eq_ok asked)
    obtain ⟨n, number, known⟩ := get_eq_ok answered
    obtain rfl : coreAsset.number = n := congrArg ObjectId.number number
    have sound' := puts.continues.sound sound
    obtain ⟨pool, there, puts'⟩ := Write.modify_eq_ok sound' run (fun _ => rfl)
    rw [puts.row?_other (by simp)] at known
    -- Both writes change one record of its kind, which no other record can be taken for.
    refine ⟨?_, core, mem_rows_iff.mpr ⟨_, known⟩, congrArg RecordId.mk (sound.numbered known), ?_⟩
    · have paying : { b with amount := b.amount + -fee } = b.paying payer fee := by
        rw [Balance.paying, if_pos ⟨owner, asset⟩, Int64.sub_eq_add_neg]
      rw [paying] at puts
      rw [rows_congr (contents_congr (puts'.others _ (by simp)))]
      refine puts.rows_map sound stored Balance.number_paying fun m other beside elsewhere =>
        if_neg fun same => elsewhere ?_
      exact sound.distinct beside stored (Table.collides_balance.mpr
        ⟨same.1.trans owner.symm, same.2.trans asset.symm⟩)
    · have place : pool.id = core.supply := congrArg RecordId.mk (sound'.numbered there)
      have collecting : { pool with fees := pool.fees + fee } = pool.collecting core.supply fee :=
        (if_pos place).symm
      rw [collecting] at puts'
      rw [← rows_congr (contents_congr (puts.others .supply (by simp)))]
      refine puts'.rows_map sound' there Supply.number_collecting fun m other beside elsewhere =>
        if_neg fun same => elsewhere ?_
      rw [← sound'.numbered beside]
      exact congrArg RecordId.number same
  · rename_i free
    rw [Shares.pos_iff] at free
    cases run
    obtain rfl : fee = 0 := Int64.toInt_inj.mp (by rw [Int64.toInt_zero]; omega)
    obtain ⟨core, s, found, -⟩ := backed.supply
    refine ⟨?_, core, mem_rows_iff.mpr ⟨0, found⟩, congrArg RecordId.mk (sound.numbered found), ?_⟩
    · rw [funext Balance.paying_free, List.map_id']
    · rw [funext Supply.collecting_free, List.map_id']

variable {op : Operation} {outcome : Outcome}

-- Only a transfer moves anything but its fee.
theorem Performed.pays (performed : op.Performed c outcome after) (standing : c.db.Standing total)
    (other : op.kind ≠ .transfer) :
    ∃ (plan : op.Plan) (mid : Database), op.examine c = .ok plan ∧
      op.carryOut c.time plan c.db = (.ok outcome, mid) ∧ c.db.Pays op.payer c.fee after ∧
      ∀ k ∉ [Kind.balance, .supply], after.rows k = mid.rows k := by
  obtain ⟨plan, mid, examined, carried, grounded, backed, -, charged⟩ := performed.settled standing
  refine ⟨plan, mid, examined, carried, ?_, fun k unpaid => ?_⟩
  · refine (charge_pays grounded.sound backed performed.fee charged).congr fun k money => ?_
    have edited := (carryOut_edits op c.time plan).edited carried
    obtain ⟨asset, supply, balance⟩ := money_not_mem_written other
    refine rows_congr (contents_congr (edited.tables ?_))
    simp only [List.mem_cons, List.not_mem_nil, or_false] at money
    rcases money with rfl | rfl | rfl <;> assumption
  · exact rows_congr (contents_congr (((charge_edits op.name op.payer c.fee).edited charged).tables unpaid))

end Operation

end RoomLedger
