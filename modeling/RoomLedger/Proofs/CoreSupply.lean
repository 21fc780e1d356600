import Mathlib
import RoomLedger.Proofs.ExactShares
import RoomLedger.Proofs.GroundedWrites
import RoomLedger.Proofs.UniqueLookups

namespace RoomLedger

open Std

namespace SortedMap

variable {κ α : Type} [Ord κ] [TransOrd κ] [LawfulEqOrd κ]

theorem sum_values_insert (m : SortedMap κ α) (worth : α → Int) (key : κ) (value : α) :
    ((m.insert key value).values.map worth).sum =
      (m.values.map worth).sum - (m.get? key).elim 0 worth + worth value := by
  obtain ⟨entries, sorted⟩ := m
  simp only [values, insert, get?, List.map_map]
  clear sorted
  induction entries with
  | nil => simp [insertEntry, lookupEntry]
  | cons entry rest ih =>
    rw [insertEntry, lookupEntry]
    cases compare key entry.1 with
    | lt => simp; omega
    | eq => simp; omega
    | gt =>
      simp only [List.map_cons, List.sum_cons, ih]
      omega

end SortedMap

namespace Database

variable {db after : Database} {n : Nat} {owner other : AccountId} {total out : Int}

def coreHeld (db : Database) : Int :=
  (((db.rows .balance).filter fun b => b.asset = coreAsset).map fun b => b.amount.toInt).sum

def coreWorth (b : Balance) : Int := if b.asset = coreAsset then b.amount.toInt else 0

theorem coreHeld_eq (db : Database) : db.coreHeld = ((db.rows .balance).map coreWorth).sum := by
  unfold coreHeld
  generalize db.rows .balance = balances
  induction balances with
  | nil => rfl
  | cons b rest ih =>
    rw [List.map_cons, List.sum_cons, ← ih, List.filter_cons]
    unfold coreWorth
    by_cases core : b.asset = coreAsset <;> simp [core]

theorem rows_of_row? {k : Kind} (complete : db.Complete) (complete' : after.Complete)
    (same : ∀ n, after.row? k n = db.row? k n) : after.rows k = db.rows k := by
  obtain ⟨t, held⟩ := Option.isSome_iff_exists.mp (complete k)
  obtain ⟨u, held'⟩ := Option.isSome_iff_exists.mp (complete' k)
  have equal : u.table.rows = t.table.rows := SortedMap.ext_get? fun n => by
    have := same n
    rwa [row?_of_held held, row?_of_held held'] at this
  rw [rows, rows, held, held']
  exact congrArg SortedMap.values equal

theorem coreHeld_puts (complete : db.Complete) {b : Balance} (puts : db.Puts .balance n (some b) after) :
    after.coreHeld = db.coreHeld - (db.row? .balance n).elim 0 coreWorth + coreWorth b := by
  obtain ⟨t, held⟩ := Option.isSome_iff_exists.mp (complete .balance)
  obtain ⟨u, held'⟩ := Option.isSome_iff_exists.mp (puts.continues.complete complete .balance)
  have inserted : u.table.rows = t.table.rows.insert n b := SortedMap.ext_get? fun m => by
    have now := puts.rows m
    rw [row?_of_held held, row?_of_held held'] at now
    exact now.trans (SortedMap.get?_insert ..).symm
  rw [coreHeld_eq, coreHeld_eq, rows, rows, held, held', row?_of_held held]
  change (u.table.rows.values.map coreWorth).sum = _
  rw [inserted]
  exact t.table.rows.sum_values_insert coreWorth n b

theorem holding_of_row? (sound : db.Sound) {b : Balance} (stored : db.row? .balance n = some b) :
    db.holding b.owner b.asset = b.amount := by
  unfold holding
  cases found : db.balance? b.owner b.asset with
  | none => exact absurd ⟨rfl, rfl⟩ (balance?_eq_none sound found stored)
  | some kept =>
    obtain ⟨stored', owner, asset⟩ := balance?_eq_some sound found
    have same := sound.distinct stored' stored (Table.collides_balance.mpr ⟨owner, asset⟩)
    rw [same, stored] at stored'
    cases stored'
    rfl

theorem holding_of_none (sound : db.Sound) {asset : AssetId}
    (none : ∀ n (b : Balance), db.row? .balance n = some b → ¬ (b.owner = owner ∧ b.asset = asset)) :
    db.holding owner asset = 0 := by
  unfold holding
  cases found : db.balance? owner asset with
  | none => rfl
  | some kept =>
    obtain ⟨stored, same⟩ := balance?_eq_some sound found
    exact absurd same (none _ kept stored)

-- `out` has been taken from where it was and has not yet come to where it goes.
structure Backed (db : Database) (total out : Int) : Prop where
  supply : ∃ (a : AssetInfo) (s : Supply), db.row? .asset 0 = some a ∧
    db.row? .supply a.supply.number = some s ∧ s.current.toInt = total ∧ 0 ≤ s.fees.toInt ∧
      db.coreHeld + s.fees.toInt + out = total
  single : ∀ n (a : AssetInfo), db.row? .asset n = some a → n = 0
  balances : ∀ n (b : Balance), db.row? .balance n = some b → b.asset = coreAsset ∧ 0 ≤ b.amount.toInt
  bounded : total ≤ maxSupply.toInt
  pending : 0 ≤ out

theorem Backed.congr (backed : db.Backed total out) (complete : db.Complete) (complete' : after.Complete)
    (asset : ∀ n, after.row? .asset n = db.row? .asset n)
    (supply : ∀ n, after.row? .supply n = db.row? .supply n)
    (balance : ∀ n, after.row? .balance n = db.row? .balance n) : after.Backed total out := by
  have same : after.coreHeld = db.coreHeld := by
    rw [coreHeld, coreHeld, rows_of_row? complete complete' balance]
  refine ⟨?_, ?_, ?_, backed.bounded, backed.pending⟩
  · simp only [asset, supply, same]
    exact backed.supply
  · simp only [asset]
    exact backed.single
  · simp only [balance]
    exact backed.balances

theorem coreWorth_nonneg (backed : db.Backed total out) {b : Balance}
    (stored : db.row? .balance n = some b) : 0 ≤ coreWorth b := by
  obtain ⟨asset, nonneg⟩ := backed.balances n b stored
  unfold coreWorth
  rwa [if_pos asset]

theorem coreHeld_nonneg (backed : db.Backed total out) : 0 ≤ db.coreHeld := by
  rw [coreHeld_eq]
  apply List.sum_nonneg
  intro x member
  obtain ⟨b, listed, rfl⟩ := List.mem_map.mp member
  obtain ⟨n, stored⟩ := mem_rows_iff.mp listed
  exact coreWorth_nonneg backed stored

theorem amount_le_coreHeld (backed : db.Backed total out) {b : Balance}
    (stored : db.row? .balance n = some b) : b.amount.toInt ≤ db.coreHeld := by
  rw [coreHeld_eq]
  have worth : coreWorth b = b.amount.toInt := if_pos (backed.balances n b stored).1
  rw [← worth]
  refine List.single_le_sum (fun x member => ?_) _ (List.mem_map.mpr ⟨b, mem_rows_iff.mpr ⟨n, stored⟩, rfl⟩)
  obtain ⟨c, listed, rfl⟩ := List.mem_map.mp member
  obtain ⟨m, stored⟩ := mem_rows_iff.mp listed
  exact coreWorth_nonneg backed stored

theorem coreHeld_le (backed : db.Backed total out) : db.coreHeld + out ≤ total := by
  obtain ⟨a, s, -, -, -, fees, sum⟩ := backed.supply
  omega

theorem holding_range (sound : db.Sound) (backed : db.Backed total out) (owner : AccountId) :
    0 ≤ (db.holding owner coreAsset).toInt ∧ (db.holding owner coreAsset).toInt ≤ db.coreHeld := by
  unfold holding
  cases found : db.balance? owner coreAsset with
  | none => exact ⟨by simp, by simpa using coreHeld_nonneg backed⟩
  | some b =>
    obtain ⟨stored, -, -⟩ := balance?_eq_some sound found
    exact ⟨(backed.balances _ b stored).2, amount_le_coreHeld backed stored⟩

variable {b : Balance}

theorem Backed.puts (backed : db.Backed total out) (complete : db.Complete)
    (puts : db.Puts .balance n (some b) after) (asset : b.asset = coreAsset) (nonneg : 0 ≤ b.amount.toInt)
    {delta : Int} (changed : b.amount.toInt = (db.row? .balance n).elim 0 coreWorth + delta)
    (covered : delta ≤ out) : after.Backed total (out - delta) := by
  have sum := coreHeld_puts complete puts
  have worth : coreWorth b = b.amount.toInt := if_pos asset
  obtain ⟨a, s, found, supply, current, fees, total⟩ := backed.supply
  refine ⟨⟨a, s, ?_, ?_, current, fees, by omega⟩, ?_, ?_, backed.bounded, by omega⟩
  · rwa [puts.row?_other (by simp)]
  · rwa [puts.row?_other (by simp)]
  · intro m c stored
    rw [puts.row?_other (by simp)] at stored
    exact backed.single m c stored
  · intro m c stored
    rw [puts.rows] at stored
    split at stored
    · cases stored
      exact ⟨asset, nonneg⟩
    · exact backed.balances m c stored

theorem holding_puts_other (sound : db.Sound) (puts : db.Puts .balance n (some b) after)
    (before : ∀ c : Balance, db.row? .balance n = some c → c.owner = b.owner) (different : other ≠ b.owner)
    (asset : AssetId) : after.holding other asset = db.holding other asset := by
  have sound' := puts.continues.sound sound
  cases found : db.balance? other asset with
  | none =>
    have without : ∀ m (c : Balance), db.row? .balance m = some c →
        ¬ (c.owner = other ∧ c.asset = asset) := fun _ _ => balance?_eq_none sound found
    rw [holding_of_none sound without, holding_of_none sound' ?_]
    intro m c stored
    rw [puts.rows] at stored
    split at stored
    · cases stored
      intro given
      obtain ⟨same, -⟩ := given
      exact different same.symm
    · exact without m c stored
  | some c =>
    obtain ⟨stored, rfl, rfl⟩ := balance?_eq_some sound found
    have elsewhere : c.id.number ≠ n := by
      intro same
      rw [same] at stored
      exact different (before c stored)
    have kept : after.row? .balance c.id.number = some c := by rw [puts.rows, if_neg elsewhere, stored]
    rw [holding_of_row? sound stored, holding_of_row? sound' kept]

-- `delta` has been added to what `owner` holds, and nothing else is different.
structure Adjusted (db : Database) (total out : Int) (owner : AccountId) (delta : Int) (after : Database) :
    Prop where
  grounded : after.Grounded
  backed : after.Backed total (out - delta)
  others : ∀ j, j ≠ .balance → after.tables.get j = db.tables.get j
  holding : (after.holding owner coreAsset).toInt = (db.holding owner coreAsset).toInt + delta
  apart : ∀ other, other ≠ owner → after.holding other coreAsset = db.holding other coreAsset

theorem adjusted_of_puts (grounded : db.Grounded) (backed : db.Backed total out)
    (puts : db.Puts .balance n (some b) after) (grown : db.next .balance ≤ after.next .balance)
    (asset : b.asset = coreAsset) (nonneg : 0 ≤ b.amount.toInt)
    (before : ∀ c : Balance, db.row? .balance n = some c → c.owner = b.owner)
    (worth : (db.row? .balance n).elim 0 coreWorth = (db.holding b.owner coreAsset).toInt) {delta : Int}
    (changed : b.amount.toInt = (db.holding b.owner coreAsset).toInt + delta) (covered : delta ≤ out) :
    db.Adjusted total out b.owner delta after := by
  have settled := grounded.puts puts grown (by simp)
  have now : after.row? .balance n = some b := by rw [puts.rows, if_pos rfl]
  refine ⟨settled, backed.puts grounded.complete puts asset nonneg (by rw [worth, changed]) covered,
    puts.others, ?_, ?_⟩
  · rw [← changed, ← asset, holding_of_row? settled.sound now]
  · intro other different
    exact holding_puts_other grounded.sound puts before different coreAsset

-- As no account holds less than nothing, the supply bounds what is held and what is given.
theorem adjust_fits (sound : db.Sound) (backed : db.Backed total out) {delta : Int}
    (enough : 0 ≤ (db.holding owner coreAsset).toInt + delta) (covered : delta ≤ out) :
    Shares.Fits ((db.holding owner coreAsset).toInt + delta) := by
  have range := holding_range sound backed owner
  have held := coreHeld_le backed
  have bound := backed.bounded
  rw [Shares.toInt_maxSupply] at bound
  unfold Shares.Fits Shares.minValue Shares.maxValue
  omega

end Database

namespace Write

open Database Change

variable {db : Database} {total out delta : Int} {owner : AccountId} {amount : Shares}

theorem modify_balance_ends (grounded : db.Grounded) (backed : db.Backed total out) (operation : String)
    {b : Balance} (stored : db.row? .balance b.id.number = some b) (asset : b.asset = coreAsset)
    (sum : amount.toInt = b.amount.toInt + delta) (nonneg : 0 ≤ amount.toInt) (covered : delta ≤ out) :
    (Write.modify operation b.id fun b => { b with amount := amount }).Ends db fun _ after =>
      db.Adjusted total out b.owner delta after := by
  have held : db.holding b.owner coreAsset = b.amount := by
    rw [← asset, holding_of_row? grounded.sound stored]
  have worth : (db.row? .balance b.id.number).elim 0 coreWorth = (db.holding b.owner coreAsset).toInt := by
    rw [stored, held]
    exact if_pos asset
  refine (modify_ends grounded.sound operation b.id stored
    (free_of_kept_keys grounded.sound stored fun other collides => ?_)).weaken ?_
  · rw [Table.collides_balance] at collides ⊢
    exact collides
  · intro _ after given
    obtain ⟨puts, next⟩ := given
    refine adjusted_of_puts grounded backed puts (Nat.le_of_eq next.symm) asset nonneg ?_ worth ?_ covered
    · intro c stored'
      rw [stored] at stored'
      cases stored'
      rfl
    · change amount.toInt = (db.holding b.owner coreAsset).toInt + delta
      rw [held, sum]

theorem create_balance_ends (grounded : db.Grounded) (backed : db.Backed total out) (operation : String)
    (without : ∀ m (c : Balance), db.row? .balance m = some c → ¬ (c.owner = owner ∧ c.asset = coreAsset))
    (sum : amount.toInt = delta) (nonneg : 0 ≤ amount.toInt) (covered : delta ≤ out) :
    (Write.create operation .balance fun b =>
      { b with owner := owner, asset := coreAsset, amount := amount }).Ends db fun _ after =>
        db.Adjusted total out owner delta after := by
  have held : db.holding owner coreAsset = 0 := holding_of_none grounded.sound without
  have fresh : db.row? .balance (db.next .balance) = none := row?_next grounded.sound _
  refine (create_ends grounded operation fun m other stored collides => ?_).weaken ?_
  · rw [Table.collides_balance] at collides
    exact without m other stored ⟨collides.1.symm, collides.2.symm⟩
  · intro row after given
    obtain ⟨made, puts, next⟩ := given
    subst made
    refine adjusted_of_puts grounded backed puts (by omega) rfl nonneg ?_ ?_ ?_ covered
    · intro c stored
      rw [fresh] at stored
      cases stored
    · rw [fresh]
      change 0 = (db.holding owner coreAsset).toInt
      rw [held]
      rfl
    · change amount.toInt = (db.holding owner coreAsset).toInt + delta
      rw [held, sum]
      simp

-- Taking and giving: what is taken is there, and what is given has been taken before.
theorem adjust_ends (grounded : db.Grounded) (backed : db.Backed total out) (operation : String)
    (delta : Shares) (enough : 0 ≤ (db.holding owner coreAsset).toInt + delta.toInt)
    (covered : delta.toInt ≤ out) :
    (Write.adjust operation owner coreAsset delta).Ends db fun _ after =>
      db.Adjusted total out owner delta.toInt after := by
  have fits := adjust_fits grounded.sound backed enough covered
  obtain ⟨amount, sum⟩ := Shares.exists_toInt_eq fits
  have nonneg : 0 ≤ amount.toInt := by omega
  have added : ((db.holding owner coreAsset).addExact? delta).filter (fun amount => decide (0 ≤ amount)) =
      some amount := by
    rw [Shares.addExact?_eq_some_iff.mpr ⟨fits, sum⟩]
    exact Option.filter_some_pos (by rw [decide_eq_true_eq, Shares.nonneg_iff]; exact nonneg)
  apply current_ends
  -- The first time makes a record; after that the one that there is gets changed.
  cases found : db.balance? owner coreAsset with
  | some b =>
    obtain ⟨stored, rfl, asset⟩ := balance?_eq_some grounded.sound found
    have held : db.holding b.owner coreAsset = b.amount := by
      rw [← asset, holding_of_row? grounded.sound stored]
    rw [held] at added sum
    simp only [Option.map_some, Option.getD_some, added]
    exact modify_balance_ends grounded backed operation stored asset sum nonneg covered
  | none =>
    have without : ∀ m (c : Balance), db.row? .balance m = some c →
        ¬ (c.owner = owner ∧ c.asset = coreAsset) := fun _ _ => balance?_eq_none grounded.sound found
    rw [holding_of_none grounded.sound without] at added sum
    rw [Int64.toInt_zero, Int.zero_add] at sum
    simp only [Option.map_none, Option.getD_none, added]
    exact (create_balance_ends grounded backed operation without sum nonneg covered).bind
      fun _ _ adjusted => pure_ends adjusted

end Write

end RoomLedger
