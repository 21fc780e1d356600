import RoomLedger.Chain.Basic
import RoomLedger.Proofs.Settlement

namespace RoomLedger

open Database Change

variable {db after : Database} {total : Int}

namespace Database

-- What an accepted genesis leaves, and what every operation that has been approved relies on.
structure Standing (db : Database) (total : Int) : Prop where
  grounded : db.Grounded
  backed : db.Backed total 0
  globals : ∃ g : Globals, db.row? .globals 0 = some g
  head : ∃ h : Head, db.row? .head 0 = some h

theorem registerAll_get (k : Kind) : empty.registerAll.tables.get k = some (.empty 0) := by
  cases k <;> rfl

theorem row?_registerAll (k : Kind) (n : Nat) : empty.registerAll.row? k n = none := by
  rw [row?_of_held (registerAll_get k)]
  rfl

theorem next_registerAll (k : Kind) : empty.registerAll.next k = 0 := by
  rw [next_of_held (registerAll_get k)]
  rfl

theorem registerAll_complete : empty.registerAll.Complete := by
  intro k
  rw [registerAll_get]
  rfl

end Database

namespace Genesis

-- The balances so far are of the core asset, and come to `sum`.
structure Endowed (db : Database) (sum : Int) : Prop where
  sound : db.Sound
  complete : db.Complete
  balances : ∀ n (b : Balance), db.row? .balance n = some b → b.asset = RoomLedger.coreAsset ∧ 0 ≤ b.amount.toInt
  held : db.coreHeld = sum

theorem Endowed.edited {kinds : List Kind} {sum : Int} (endowed : Endowed db sum)
    (edited : Edited kinds db after) (apart : .balance ∉ kinds) : Endowed after sum := by
  have continues := edited.continues endowed.sound
  have same := edited.tables apart
  refine ⟨continues.sound endowed.sound, continues.complete endowed.complete, ?_, ?_⟩
  · intro n b stored
    rw [row?_congr same] at stored
    exact endowed.balances n b stored
  · rw [coreHeld, rows, same]
    exact endowed.held

theorem Endowed.puts {sum : Int} (endowed : Endowed db sum) {b : Balance}
    (puts : db.Puts .balance (db.next .balance) (some b) after) (asset : b.asset = RoomLedger.coreAsset)
    (nonneg : 0 ≤ b.amount.toInt) : Endowed after (sum + b.amount.toInt) := by
  refine ⟨puts.continues.sound endowed.sound, puts.continues.complete endowed.complete, ?_, ?_⟩
  · intro n c stored
    rw [puts.rows] at stored
    split at stored
    · cases stored
      exact ⟨asset, nonneg⟩
    · exact endowed.balances n c stored
  · have worth : coreWorth b = b.amount.toInt := if_pos asset
    rw [coreHeld_puts endowed.complete puts, row?_next endowed.sound, endowed.held, worth]
    simp

theorem checkAccount_eq_ok {known : List String} {sum : Shares} {a : GenesisAccount}
    {result : List String × Shares} (checked : checkAccount (known, sum) a = .ok result) :
    0 ≤ a.balance.toInt ∧ sum.addExact? a.balance = some result.2 ∧ result.2.toInt ≤ maxSupply.toInt := by
  unfold checkAccount at checked
  split at checked
  · cases checked
  split at checked
  · cases checked
  split at checked
  · cases checked
  rename_i nonneg
  split at checked
  · rename_i total added
    split at checked
    · rename_i bounded
      cases checked
      rw [Int64.lt_iff_toInt_lt, Int64.toInt_zero] at nonneg
      exact ⟨by omega, added, Int64.le_iff_toInt_le.mp bounded⟩
    · cases checked
  · cases checked

-- What a check adds up is what is paid out.
theorem endow_eq_ok {registrar : AccountId} {known : List String} {sum result : Shares}
    {a : GenesisAccount} {checked : List String × Shares}
    (approved : checkAccount (known, sum) a = .ok checked) (endowed : Endowed db sum.toInt)
    (run : endow registrar sum a db = (.ok result, after)) :
    result = checked.2 ∧ Endowed after result.toInt ∧ result.toInt = sum.toInt + a.balance.toInt := by
  obtain ⟨nonneg, added, -⟩ := checkAccount_eq_ok approved
  have total := (Shares.addExact?_eq_some_iff.mp added).2
  obtain ⟨account, mid, opened, funded⟩ := bind_eq_ok run
  have edited := (openAccount_edits (List.mem_singleton.mpr rfl) registrar a.name).edited opened
  have endowed := endowed.edited edited (by simp)
  split at funded
  · obtain ⟨row, last, created, made⟩ := bind_eq_ok funded
    cases made
    obtain ⟨rfl, puts, -⟩ := create_eq_ok endowed.sound created
    have same : sum + a.balance = checked.2 := (Shares.addExact?_eq_add added).symm
    rw [same, total]
    exact ⟨rfl, endowed.puts puts rfl nonneg, rfl⟩
  · rename_i unfunded
    cases funded
    rw [Shares.pos_iff] at unfunded
    have nothing : a.balance.toInt = 0 := by omega
    rw [nothing, Int.add_zero] at total
    exact ⟨(Int64.toInt_inj.mp total).symm, endowed, by omega⟩

theorem endowAll_eq_ok {registrar : AccountId} (accounts : List GenesisAccount) {known : List String}
    {sum result : Shares} {checked : List String × Shares}
    (approved : accounts.foldlM checkAccount (known, sum) = .ok checked) (endowed : Endowed db sum.toInt)
    (bounded : sum.toInt ≤ maxSupply.toInt)
    (run : accounts.foldlM (endow registrar) sum db = (.ok result, after)) :
    Endowed after result.toInt ∧ result.toInt ≤ maxSupply.toInt ∧
      result.toInt = sum.toInt + (accounts.map fun a => a.balance.toInt).sum := by
  induction accounts generalizing known sum db with
  | nil =>
    cases run
    exact ⟨endowed, bounded, by simp⟩
  | cons a rest ih =>
    rw [List.foldlM_cons] at approved run
    obtain ⟨⟨names, next⟩, one, approved⟩ := exists_of_bind_eq_ok approved
    obtain ⟨paid, mid, first, run⟩ := bind_eq_ok run
    obtain ⟨same, endowed, total⟩ := endow_eq_ok one endowed first
    subst same
    obtain ⟨endowed, bounded, sum⟩ := ih approved endowed (checkAccount_eq_ok one).2.2 run
    refine ⟨endowed, bounded, ?_⟩
    rw [sum, total, List.map_cons, List.sum_cons]
    omega

theorem check_eq_ok {g : Genesis} (checked : g.check = .ok ()) :
    ∃ result, g.accounts.foldlM checkAccount ([], 0) = .ok result := by
  unfold check at checked
  dsimp only at checked
  split at checked
  · cases checked
  · obtain ⟨result, folded, -⟩ := exists_of_bind_eq_ok checked
    exact ⟨result, folded⟩

def granted (g : Genesis) : Int := (g.accounts.map fun a => a.balance.toInt).sum

-- What is there when the listed accounts are about to be endowed.
structure Founded (db : Database) (asset : AssetInfo) (supply : Supply) : Prop where
  sound : db.Sound
  complete : db.Complete
  single : ∀ n, db.row? .asset n = if n = 0 then some asset else none
  backing : db.row? .supply asset.supply.number = some supply
  unpaid : supply.fees = 0
  vacant : ∀ k, k ≠ .account → k ≠ .supply → k ≠ .asset → db.tables.get k = empty.registerAll.tables.get k

theorem founded_of_created {two three four : Database} {supply : Supply} {asset : AssetInfo}
    {fill : AssetInfo → AssetInfo} (backs : ∀ a, (fill a).supply = supply.id) (sound : two.Sound)
    (complete : two.Complete)
    (before : ∀ k, k ≠ .account → two.tables.get k = empty.registerAll.tables.get k)
    (supplied : create .supply id two = (.ok supply, three))
    (issued : create .asset fill three = (.ok asset, four)) :
    Founded four asset supply := by
  obtain ⟨rfl, third, -⟩ := create_eq_ok sound supplied
  have sound₃ := third.continues.sound sound
  obtain ⟨rfl, fourth, -⟩ := create_eq_ok sound₃ issued
  have first : two.next .supply = 0 := by
    rw [next_congr (before _ (by simp)), next_registerAll]
  have only : three.next .asset = 0 := by
    rw [third.next_other (by simp), next_congr (before _ (by simp)), next_registerAll]
  refine ⟨fourth.continues.sound sound₃, fourth.continues.complete (third.continues.complete complete),
    ?_, ?_, rfl, ?_⟩
  · intro n
    rw [fourth.rows, only, third.row?_other (by simp), row?_congr (before _ (by simp)),
      row?_registerAll]
  · change four.row? .supply (fill Stored.blank).supply.number = _
    rw [backs, fourth.row?_other (by simp), third.rows]
    exact if_pos rfl
  · intro k account supply asset
    rw [fourth.others k asset, third.others k supply, before k account]

theorem Founded.endowed {asset : AssetInfo} {supply : Supply} (founded : Founded db asset supply) :
    Endowed db 0 := by
  have vacant := founded.vacant .balance (by simp) (by simp) (by simp)
  refine ⟨founded.sound, founded.complete, ?_, ?_⟩
  · intro n b stored
    rw [row?_congr vacant, row?_registerAll] at stored
    cases stored
  · rw [coreHeld, rows, vacant, registerAll_get]
    rfl

theorem backed_of_endowed {asset : AssetInfo} {supply : Supply} {total : Shares} {founding endowed : Database}
    (founded : Founded founding asset supply) (paid : Endowed endowed total.toInt)
    (bounded : total.toInt ≤ maxSupply.toInt)
    (kept : ∀ k, k ≠ .account → k ≠ .balance → endowed.tables.get k = founding.tables.get k)
    (run : Database.modify .supply supply.id.id (fun s => { s with current := total }) endowed =
      (.ok (), after)) :
    after.Grounded ∧ after.Backed total.toInt 0 ∧
      ∀ k, k ≠ .account → k ≠ .balance → k ≠ .supply → k ≠ .asset →
        after.tables.get k = empty.registerAll.tables.get k := by
  have number : supply.id.number = asset.supply.number := founded.sound.numbered founded.backing
  obtain ⟨row, stored, puts, -⟩ := modify_eq_ok paid.sound run
  rw [row?_congr (kept _ (by simp) (by simp)), number, founded.backing] at stored
  cases stored
  have vacant : ∀ k, k ≠ .account → k ≠ .balance → k ≠ .supply → k ≠ .asset →
      after.tables.get k = empty.registerAll.tables.get k := fun k account balance supply asset =>
    (puts.others k supply).trans ((kept k account balance).trans (founded.vacant k account supply asset))
  -- The supply record is no balance, so what is held is still what was paid out.
  have held : after.coreHeld = total.toInt := by
    rw [coreHeld, rows, puts.others _ (by simp)]
    exact paid.held
  have single : ∀ n, after.row? .asset n = if n = 0 then some asset else none := by
    intro n
    rw [puts.row?_other (by simp), row?_congr (kept _ (by simp) (by simp)), founded.single]
  have supplied : after.row? .supply asset.supply.number =
      some (Stored.withNumber { supply with current := total } supply.id.number) := by
    rw [puts.rows, ← number]
    exact if_pos rfl
  refine ⟨⟨puts.continues.sound paid.sound, puts.continues.complete paid.complete, ?_⟩,
    ⟨⟨asset, _, single 0, supplied, rfl, ?_, ?_⟩, ?_, ?_, bounded, Int.le_refl 0⟩, vacant⟩
  · intro n p present
    rw [row?_congr (vacant _ (by simp) (by simp) (by simp) (by simp)), row?_registerAll] at present
    cases present
  · change 0 ≤ supply.fees.toInt
    rw [founded.unpaid]
    simp
  · change after.coreHeld + supply.fees.toInt + 0 = total.toInt
    rw [founded.unpaid, held]
    simp
  · intro n a present
    rw [single] at present
    split at present
    · assumption
    · cases present
  · intro n b present
    rw [puts.row?_other (by simp)] at present
    exact paid.balances n b present

theorem standing_of_backed {fill : Globals → Globals} {start : Head → Head} {globals : Globals} {head : Head}
    {backing ruling : Database} {total : Int} (grounded : backing.Grounded) (backed : backing.Backed total 0)
    (unruled : backing.next .globals = 0) (headless : backing.next .head = 0)
    (ruled : create .globals fill backing = (.ok globals, ruling))
    (headed : create .head start ruling = (.ok head, after)) : after.Standing total := by
  obtain ⟨-, rules, grown⟩ := create_eq_ok grounded.sound ruled
  have grounded' := grounded.puts rules (by omega) (by simp)
  obtain ⟨-, heads, grown'⟩ := create_eq_ok grounded'.sound headed
  have grounded'' := grounded'.puts heads (by omega) (by simp)
  have same : ∀ k, k ≠ .globals → k ≠ .head → ∀ n, after.row? k n = backing.row? k n := by
    intro k globals head n
    rw [heads.row?_other head, rules.row?_other globals]
  refine ⟨grounded'', ?_, ⟨globals, ?_⟩, ⟨head, ?_⟩⟩
  · exact backed.congr grounded.complete grounded''.complete (same _ (by simp) (by simp))
      (same _ (by simp) (by simp)) (same _ (by simp) (by simp))
  · rw [heads.row?_other (by simp), rules.rows, unruled, if_pos rfl]
  · rw [heads.rows, rules.next_other (by simp), headless, if_pos rfl]

theorem populate_standing {g : Genesis} (checked : g.check = .ok ())
    (run : g.populate empty.registerAll = (.ok (), db)) : db.Standing g.granted := by
  have sound : empty.registerAll.Sound := (foldl_register_sound Kind.all empty_sound).1
  obtain ⟨committee, one, made, run⟩ := bind_eq_ok run
  obtain ⟨-, first, -⟩ := create_eq_ok sound made
  have sound₁ := first.continues.sound sound
  obtain ⟨witness, two, made, run⟩ := bind_eq_ok run
  obtain ⟨-, second, -⟩ := create_eq_ok sound₁ made
  obtain ⟨supply, three, supplied, run⟩ := bind_eq_ok run
  obtain ⟨asset, four, issued, run⟩ := bind_eq_ok run
  have founded := founded_of_created (fun _ => rfl) (second.continues.sound sound₁)
    (second.continues.complete (first.continues.complete registerAll_complete))
    (fun k other => (second.others k other).trans (first.others k other)) supplied issued
  obtain ⟨total, five, paid, run⟩ := bind_eq_ok run
  obtain ⟨result, folded⟩ := check_eq_ok checked
  obtain ⟨endowed, bounded, sum⟩ := endowAll_eq_ok g.accounts folded founded.endowed (by decide) paid
  have edited : Edited [.account, .balance] four five := by
    have edits : Edits [.account, .balance] (g.accounts.foldlM (endow committee.id) 0) :=
      foldlM_edits (endow_edits (by simp) (by simp) committee.id) g.accounts 0
    have edited := edits four
    rwa [paid] at edited
  obtain ⟨_, six, backed, run⟩ := bind_eq_ok run
  obtain ⟨globals, seven, ruled, run⟩ := bind_eq_ok run
  obtain ⟨head, eight, headed, run⟩ := bind_eq_ok run
  cases run
  have total : total.toInt = g.granted := by
    rw [sum, Int64.toInt_zero, Int.zero_add, granted]
  rw [← total]
  obtain ⟨grounded, backed, vacant⟩ := backed_of_endowed founded endowed bounded
    (fun k account balance => edited.tables (by simp [account, balance])) backed
  have unused : ∀ k, k ≠ .account → k ≠ .balance → k ≠ .supply → k ≠ .asset → six.next k = 0 := by
    intro k account balance supply asset
    rw [next_congr (vacant k account balance supply asset), next_registerAll]
  exact standing_of_backed grounded backed (unused _ (by simp) (by simp) (by simp) (by simp))
    (unused _ (by simp) (by simp) (by simp) (by simp)) ruled headed

theorem apply_populates {g : Genesis} (run : g.apply empty.registerAll = (.ok (), db)) :
    g.check = .ok () ∧ g.populate empty.registerAll = (.ok (), db) := by
  obtain ⟨_, start, current, run⟩ := bind_eq_ok run
  cases current
  split at run
  · cases run
  obtain ⟨_, mid, checked, run⟩ := bind_eq_ok run
  have same : g.check = .ok () ∧ mid = empty.registerAll := by
    cases verdict : g.check with
    | error e => rw [verdict] at checked; cases checked
    | ok _ => rw [verdict] at checked; cases checked; exact ⟨rfl, rfl⟩
  obtain ⟨valid, rfl⟩ := same
  rw [adapt_apply] at run
  obtain ⟨ran, left⟩ := Prod.mk.inj run
  exact ⟨valid, Prod.ext (of_mapError_eq_ok ran) left⟩

theorem apply_eq_ok {g : Genesis} (run : g.apply empty.registerAll = (.ok (), db)) :
    db.Standing g.granted ∧ db.depth = 0 := by
  obtain ⟨valid, populated⟩ := apply_populates run
  refine ⟨populate_standing valid populated, ?_⟩
  have sound := foldl_register_sound Kind.all empty_sound
  have edited := g.populate_edits.edited populated
  exact (edited.continues sound.1).depth.trans sound.2

end Genesis

namespace Chain

variable {ω : Type} {config : Config} {genesis : Genesis} {observers : List ω} {c : Chain ω}

theorem start_applies (started : start config genesis observers = .ok c) :
    genesis.apply empty.registerAll = (.ok (), c.db) ∧ c = ⟨c.db, config, observers, none, none⟩ := by
  unfold start at started
  split at started
  · rename_i db applied
    cases started
    exact ⟨applied, rfl⟩
  · cases started

theorem start_eq_ok (started : start config genesis observers = .ok c) :
    c.db.Standing genesis.granted ∧ c.db.depth = 0 ∧ c.openBlock = none ∧ c.halted = none := by
  obtain ⟨applied, same⟩ := start_applies started
  obtain ⟨standing, depth⟩ := Genesis.apply_eq_ok applied
  rw [same]
  exact ⟨standing, depth, rfl, rfl⟩

end Chain

end RoomLedger
