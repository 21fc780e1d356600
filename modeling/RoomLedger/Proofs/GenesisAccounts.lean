import RoomLedger.Proofs.GenesisLists
import RoomLedger.Proofs.UniqueLookups

namespace RoomLedger

open Database Change

namespace Database

variable {α : Type} {db after : Database} {k : Kind} {make : Nat → α → k.Row} {list : List α} {x : α}
  {kinds : List Kind}

-- Every kind is registered and nothing has been made of any. Sessions may be open.
structure Fresh (db : Database) : Prop where
  sound : db.Sound
  vacant : ∀ k, ∃ t, db.tables.get k = some t ∧ t.table = .empty

-- The records of a kind are made of the members of a list, and numbered in its order.
structure Numbers (db : Database) (k : Kind) (make : Nat → α → k.Row) (list : List α) : Prop where
  rows : ∀ n, db.row? k n = list[n]?.map (make n)
  next : db.next k = list.length

-- Every kind is registered, and only of the listed ones has anything been made.
structure MadeOnly (kinds : List Kind) (db : Database) : Prop where
  sound : db.Sound
  complete : db.Complete
  vacant : ∀ k, k ∉ kinds → ∃ t, db.tables.get k = some t ∧ t.table = .empty

theorem registerAll_fresh : empty.registerAll.Fresh :=
  ⟨(foldl_register_sound Kind.all empty_sound).1, fun k => ⟨_, registerAll_get k, rfl⟩⟩

theorem Fresh.madeOnly (fresh : db.Fresh) : db.MadeOnly [] where
  sound := fresh.sound
  complete k := by
    obtain ⟨t, held, -⟩ := fresh.vacant k
    rw [held]
    rfl
  vacant k _ := fresh.vacant k

theorem MadeOnly.numbers (made : db.MadeOnly kinds) (unmade : k ∉ kinds) (make : Nat → α → k.Row) :
    db.Numbers k make [] := by
  obtain ⟨t, held, none⟩ := made.vacant k unmade
  refine ⟨fun n => ?_, ?_⟩
  · rw [row?_of_held held, none]
    rfl
  · rw [next_of_held held, none]
    rfl

theorem MadeOnly.puts {n : Nat} {held : Option k.Row} (made : db.MadeOnly kinds) (puts : db.Puts k n held after) :
    after.MadeOnly (k :: kinds) where
  sound := puts.continues.sound made.sound
  complete := puts.continues.complete made.complete
  vacant j unlisted := by
    rw [List.mem_cons, not_or] at unlisted
    rw [puts.others j unlisted.1]
    exact made.vacant j unlisted.2

theorem MadeOnly.edited {others : List Kind} (made : db.MadeOnly kinds) (edited : Edited others db after) :
    after.MadeOnly (others ++ kinds) where
  sound := (edited.continues made.sound).sound made.sound
  complete := (edited.continues made.sound).complete made.complete
  vacant j unlisted := by
    rw [List.mem_append, not_or] at unlisted
    rw [edited.tables unlisted.1]
    exact made.vacant j unlisted.2

theorem Fresh.size (fresh : db.Fresh) : db.size = 0 := by
  have none : ∀ k, db.count k = 0 := by
    intro k
    obtain ⟨t, held, none⟩ := fresh.vacant k
    unfold count rows
    rw [held]
    dsimp only
    rw [none]
    rfl
  have same : db.count = fun _ => 0 := funext none
  rw [Database.size, same]
  rfl

theorem Numbers.congr (numbers : db.Numbers k make list) (same : after.tables.get k = db.tables.get k) :
    after.Numbers k make list :=
  ⟨fun n => (row?_congr same n).trans (numbers.rows n), (next_congr same).trans numbers.next⟩

theorem Numbers.put (numbers : db.Numbers k make list)
    (puts : db.Puts k list.length (some (make list.length x)) after)
    (counted : after.next k = db.next k + 1) : after.Numbers k make (list ++ [x]) := by
  refine ⟨fun n => ?_, by rw [counted, numbers.next, List.length_append, List.length_singleton]⟩
  rw [puts.rows]
  split
  · rename_i last
    rw [last, List.getElem?_concat_length]
    rfl
  · rename_i other
    rw [numbers.rows]
    rcases Nat.lt_or_gt_of_ne other with before | behind
    · rw [List.getElem?_append_left before]
    · rw [List.getElem?_eq_none (Nat.le_of_lt behind), List.getElem?_eq_none (by simp; omega)]

-- A record at the end of the list, of which no other one has a unique key.
theorem Numbers.create_ends (numbers : db.Numbers k make list) (sound : db.Sound) (complete : db.Complete)
    (fill : k.Row → k.Row) (x : α)
    (made : Stored.withNumber (fill Stored.blank) list.length = make list.length x)
    (free : ∀ n y, list[n]? = some y → ¬ Table.Collides (make list.length x) (make n y)) :
    Ends (create k fill) db fun row after => row = make list.length x ∧
      db.Puts k list.length (some row) after ∧ after.Numbers k make (list ++ [x]) := by
  have free' : ∀ m other, db.row? k m = some other →
      ¬ Table.Collides (Stored.withNumber (fill Stored.blank) (db.next k)) other := by
    intro m other stored
    rw [numbers.rows, Option.map_eq_some_iff] at stored
    obtain ⟨y, listed, rfl⟩ := stored
    rw [numbers.next, made]
    exact free m y listed
  obtain ⟨row, after, run⟩ := create_succeeds sound complete fill free'
  obtain ⟨same, puts, counted⟩ := create_eq_ok sound run
  rw [numbers.next] at same puts
  rw [made] at same
  subst same
  exact ⟨_, after, run, rfl, puts, numbers.put puts counted⟩

theorem MadeOnly.create_ends (made : db.MadeOnly kinds) (unmade : k ∉ kinds) (fill : k.Row → k.Row)
    (make : Nat → α → k.Row) (x : α) (first : Stored.withNumber (fill Stored.blank) 0 = make 0 x) :
    Ends (create k fill) db fun row after => row = make 0 x ∧ after.MadeOnly (k :: kinds) ∧
      db.Puts k 0 (some row) after ∧ after.Numbers k make [x] := by
  refine ((made.numbers unmade make).create_ends made.sound made.complete fill x first fun n y none => ?_).weaken
    fun row after ⟨same, puts, numbers⟩ => ⟨same, made.puts puts, puts, numbers⟩
  cases none

end Database

namespace Genesis

variable {g : Genesis} {db after : Database} {past rest : List GenesisAccount} {a : GenesisAccount}

def accountOf (n : Nat) (name : String) : Account := ⟨⟨n⟩, name, committeeAccount⟩

def balanceOf (g : Genesis) (n : Nat) (a : GenesisAccount) : Balance :=
  ⟨⟨n⟩, g.seat a.name, RoomLedger.coreAsset, a.balance⟩

def funded (accounts : List GenesisAccount) : List GenesisAccount := accounts.filter fun a => 0 < a.balance

-- The listed accounts up to a place have been opened and paid.
structure Settled (g : Genesis) (past : List GenesisAccount) (db : Database) : Prop where
  sound : db.Sound
  complete : db.Complete
  accounts : db.Numbers .account accountOf (seats past)
  balances : db.Numbers .balance g.balanceOf (funded past)

theorem Settled.named_iff (settled : g.Settled past db) {name : String} {account : Account} :
    db.accountNamed? name = some account ↔
      (seats past)[account.id.number]? = some name ∧ account = accountOf account.id.number name := by
  rw [accountNamed?_eq_some_iff settled.sound, settled.accounts.rows, Option.map_eq_some_iff]
  constructor
  · intro given
    obtain ⟨⟨found, listed, same⟩, named⟩ := given
    have : found = name := by rw [← named, ← same]; rfl
    subst this
    exact ⟨listed, same.symm⟩
  · intro given
    obtain ⟨listed, same⟩ := given
    exact ⟨⟨name, listed, same.symm⟩, by rw [same]; rfl⟩

theorem openAccount_apply (registrar : AccountId) (name : String) (db : Database) :
    openAccount registrar name db = (match db.accountNamed? name with
      | some account => (pure account.id : Change DbError AccountId)
      | none => do
        let account ← create .account fun a => { a with name := name, registrar := registrar }
        return account.id) db := rfl

theorem openAccount_ends (sensible : g.Sensible) (settled : g.Settled past db)
    (split : past ++ a :: rest = g.accounts) :
    (openAccount committeeAccount a.name).Ends db fun id after => id = g.seat a.name ∧
      after.Sound ∧ after.Complete ∧ after.Numbers .account accountOf (seats (past ++ [a])) ∧
      after.tables.get .balance = db.tables.get .balance := by
  by_cases reserved : isReserved a.name = true
  · have member : a.name ∈ seats past := mem_seats_of_reserved reserved
    have found : db.accountNamed? a.name = some (accountOf ((seats past).idxOf a.name) a.name) :=
      settled.named_iff.mpr ⟨List.getElem?_idxOf member, rfl⟩
    refine ⟨_, db, by rw [openAccount_apply, found]; rfl, (seat_of_mem split member).symm, settled.sound,
      settled.complete, ?_, rfl⟩
    rw [seats_concat_reserved reserved]
    exact settled.accounts
  · have free : isReserved a.name = false := by simpa using reserved
    obtain ⟨absent, seat⟩ := seat_of_next sensible.distinct split free
    have missing : db.accountNamed? a.name = none := by
      cases found : db.accountNamed? a.name with
      | none => rfl
      | some account => exact absurd (List.mem_of_getElem? (settled.named_iff.mp found).1) absent
    have created := settled.accounts.create_ends settled.sound settled.complete
      (fun b => { b with name := a.name, registrar := committeeAccount }) a.name rfl
      fun n name listed collides => by
        have equal : a.name = name := Table.collides_account.mp collides
        exact absent (equal ▸ List.mem_of_getElem? listed)
    unfold Ends
    rw [openAccount_apply, missing, seats_concat_free free]
    refine created.bind fun account after given => ?_
    obtain ⟨rfl, puts, accounts⟩ := given
    exact pure_ends ⟨seat.symm, puts.continues.sound settled.sound, puts.continues.complete settled.complete,
      accounts, puts.others _ (by simp)⟩

-- A listed account is paid once, because it is listed once.
theorem endow_ends (sensible : g.Sensible) (settled : g.Settled past db)
    (split : past ++ a :: rest = g.accounts) {sum : Shares} (paid : sum.toInt = totalOf past) :
    (endow committeeAccount sum a).Ends db fun result after => g.Settled (past ++ [a]) after ∧
      result.toInt = totalOf (past ++ [a]) := by
  have listed : a ∈ g.accounts := split ▸ List.mem_append_right _ (List.mem_cons_self ..)
  have nonneg : ∀ b ∈ g.accounts, 0 ≤ b.balance.toInt := fun b member =>
    Shares.nonneg_iff.mp (sensible.nonneg b member)
  have total : totalOf (past ++ [a]) = sum.toInt + a.balance.toInt := by
    rw [totalOf_append, paid, totalOf_cons]
    exact congrArg _ (Int.add_zero _)
  unfold endow
  refine (openAccount_ends sensible settled split).bind fun account mid given => ?_
  obtain ⟨rfl, sound, complete, accounts, others⟩ := given
  have balances := settled.balances.congr others
  by_cases pays : 0 < a.balance
  · rw [if_pos pays]
    have kept : funded (past ++ [a]) = funded past ++ [a] := by simp [funded, pays]
    have created := balances.create_ends sound complete
      (fun b => { b with owner := g.seat a.name, asset := RoomLedger.coreAsset, amount := a.balance }) a rfl
      fun n b place collides => by
        have member : b ∈ past := (List.mem_filter.mp (List.mem_of_getElem? place)).1
        have same : g.seat a.name = g.seat b.name := (Table.collides_balance.mp collides).1
        -- Two balances of one owner would mean that a name is listed twice.
        have equal : a.name = b.name :=
          (List.idxOf_inj (mem_seats_of_mem listed)).mp (congrArg RecordId.number same)
        have distinct := sensible.distinct
        rw [← split, List.map_append, List.map_cons] at distinct
        exact List.disjoint_of_nodup_append distinct (List.mem_map.mpr ⟨b, member, equal.symm⟩)
          (List.mem_cons_self ..)
    refine created.bind fun row after ⟨_, puts, balances⟩ => pure_ends ⟨⟨puts.continues.sound sound,
      puts.continues.complete complete, accounts.congr (puts.others _ (by simp)), kept ▸ balances⟩, ?_⟩
    have below : 0 ≤ totalOf past := totalOf_nonneg fun b member =>
      nonneg b (split ▸ List.mem_append_left _ member)
    have above : 0 ≤ totalOf rest := totalOf_nonneg fun b member =>
      nonneg b (split ▸ List.mem_append_right _ (List.mem_cons_of_mem _ member))
    have whole : totalOf past + (a.balance.toInt + totalOf rest) ≤ maxSupply.toInt := by
      have bounded := sensible.bounded
      change totalOf g.accounts ≤ _ at bounded
      rwa [← split, totalOf_append, totalOf_cons] at bounded
    rw [total, (toInt_add_of_bounded (by omega) (nonneg a listed) (by omega)).2]
  · rw [if_neg pays]
    have kept : funded (past ++ [a]) = funded past := by simp [funded, pays]
    have nothing : a.balance.toInt = 0 := by
      have := nonneg a listed
      rw [Shares.pos_iff] at pays
      omega
    exact pure_ends ⟨⟨sound, complete, accounts, kept ▸ balances⟩, by rw [total, nothing, Int.add_zero]⟩

theorem endowAll_ends (sensible : g.Sensible) (accounts past : List GenesisAccount)
    (split : past ++ accounts = g.accounts) (settled : g.Settled past db) {sum : Shares}
    (paid : sum.toInt = totalOf past) :
    Ends (accounts.foldlM (endow committeeAccount) sum) db fun result after =>
      g.Settled g.accounts after ∧ result.toInt = g.granted := by
  induction accounts generalizing past db sum with
  | nil =>
    rw [List.append_nil] at split
    subst split
    exact pure_ends ⟨settled, paid⟩
  | cons a rest ih =>
    rw [List.foldlM_cons]
    refine (endow_ends sensible settled split paid).bind fun result mid ⟨settled, paid⟩ => ?_
    exact ih (past ++ [a]) (by rw [List.append_assoc]; exact split) settled paid

def supplyOf (n : Nat) (current : Shares) : Supply := ⟨⟨n⟩, current, 0⟩

def assetOf (n : Nat) (a : GenesisAsset) : AssetInfo := ⟨⟨n⟩, a.symbol, a.precision, committeeAccount, ⟨0⟩⟩

-- The core asset and its supply, of which `current` has been given out.
structure Issued (g : Genesis) (current : Shares) (db : Database) : Prop where
  asset : db.Numbers .asset assetOf [g.coreAsset]
  supply : db.Numbers .supply supplyOf [current]

theorem Issued.congr {current : Shares} (issued : g.Issued current db)
    (asset : after.tables.get .asset = db.tables.get .asset)
    (supply : after.tables.get .supply = db.tables.get .supply) : g.Issued current after :=
  ⟨issued.asset.congr asset, issued.supply.congr supply⟩

theorem Settled.congr (settled : g.Settled past db) (continues : db.Continues after)
    (account : after.tables.get .account = db.tables.get .account)
    (balance : after.tables.get .balance = db.tables.get .balance) : g.Settled past after :=
  ⟨continues.sound settled.sound, continues.complete settled.complete,
    settled.accounts.congr account, settled.balances.congr balance⟩

theorem supply_ends (settled : g.Settled g.accounts db) (issued : g.Issued 0 db) (total : Shares) :
    Ends (Database.modify .supply (⟨0⟩ : SupplyId).id fun s => { s with current := total }) db fun _ after =>
      g.Settled g.accounts after ∧ g.Issued total after ∧
        db.Puts .supply 0 (some (supplyOf 0 total)) after := by
  have first : db.row? .supply 0 = some (supplyOf 0 0) := issued.supply.rows 0
  have alone : ∀ n, n ≠ 0 → db.row? .supply n = none := by
    intro n other
    rw [issued.supply.rows, List.getElem?_eq_none (by simpa [Nat.one_le_iff_ne_zero] using other)]
    rfl
  obtain ⟨after, run⟩ := modify_succeeds settled.sound first (fun s => { s with current := total })
    fun m other stored _ => by
      by_contra apart
      rw [alone m apart] at stored
      cases stored
  obtain ⟨row, found, puts, counted⟩ := modify_eq_ok settled.sound run
  rw [first] at found
  cases found
  refine ⟨(), after, run, settled.congr puts.continues (puts.others _ (by simp)) (puts.others _ (by simp)),
    ⟨issued.asset.congr (puts.others _ (by simp)), fun n => ?_, counted.trans issued.supply.next⟩, puts⟩
  rw [puts.rows]
  split
  · rename_i same
    subst same
    rfl
  · rename_i other
    rw [alone n other, List.getElem?_eq_none (by simpa [Nat.one_le_iff_ne_zero] using other)]
    rfl

theorem rule_ends (g : Genesis) {kinds : List Kind} (made : db.MadeOnly kinds) (ruleless : .globals ∉ kinds)
    (headless : .head ∉ kinds) :
    Ends (do
      let _ ← Database.create .globals fun r => { r with parameters := ⟨g.fees⟩ }
      let _ ← Database.create .head fun h => { h with number := 0, time := g.time }) db fun _ after =>
      db.Continues after ∧ ∀ k, k ≠ .globals → k ≠ .head → after.tables.get k = db.tables.get k := by
  refine (made.create_ends ruleless _ (fun n (_ : Unit) => ⟨⟨n⟩, ⟨g.fees⟩⟩) () rfl).bind
    fun _ mid ⟨_, made, rules, _⟩ => ?_
  have unmade : Kind.head ∉ .globals :: kinds := by simpa using headless
  refine (made.create_ends unmade _ (fun n (_ : Unit) => ⟨⟨n⟩, 0, g.time⟩) () rfl).bind
    fun _ after ⟨_, _, heads, _⟩ => pure_ends ⟨?_, ?_⟩
  · exact rules.continues.trans heads.continues
  · exact fun k globals head => (heads.others k head).trans (rules.others k globals)

theorem populate_ends (sensible : g.Sensible) (fresh : db.Fresh) :
    g.populate.Ends db fun _ after => g.Settled g.accounts after ∧
      ∃ total : Shares, g.Issued total after ∧ total.toInt = g.granted := by
  unfold populate
  refine (fresh.madeOnly.create_ends (by simp) _ accountOf committeeName rfl).bind
    fun committee one ⟨same, made, _, accounts⟩ => ?_
  subst same
  refine (accounts.create_ends made.sound made.complete _ witnessName rfl ?_).bind
    fun _ two ⟨_, second, accounts⟩ => ?_
  · intro n name listed collides
    have earlier : name = committeeName := List.mem_singleton.mp (List.mem_of_getElem? listed)
    have same : witnessName = name := Table.collides_account.mp collides
    rw [earlier] at same
    exact absurd same (by decide)
  refine ((made.puts second).create_ends (by simp) _ supplyOf 0 rfl).bind
    fun supply three ⟨same, made, third, supplies⟩ => ?_
  subst same
  refine (made.create_ends (by simp) _ assetOf g.coreAsset rfl).bind
    fun _ four ⟨_, made, fourth, assets⟩ => ?_
  have accounts := (accounts.congr (third.others _ (by simp))).congr (fourth.others _ (by simp))
  have issued : g.Issued 0 four := ⟨assets, supplies.congr (fourth.others _ (by simp))⟩
  have settled : g.Settled [] four :=
    ⟨made.sound, made.complete, accounts, made.numbers (k := .balance) (by simp) g.balanceOf⟩
  have edits : Edits [.account, .balance] (g.accounts.foldlM (endow committeeAccount) 0) :=
    foldlM_edits (endow_edits (by simp) (by simp) committeeAccount) g.accounts 0
  refine ((endowAll_ends sensible g.accounts [] rfl settled rfl).edited edits).bind
    fun total five ⟨⟨settled, granted⟩, edited⟩ => ?_
  have issued := issued.congr (edited.tables (by simp)) (edited.tables (by simp))
  refine (supply_ends settled issued total).bind fun _ six ⟨settled, issued, paid⟩ => ?_
  have made := (made.edited edited).puts paid
  refine (rule_ends g made (by simp) (by simp)).weaken fun _ after ⟨continues, others⟩ => ?_
  exact ⟨settled.congr continues (others _ (by simp) (by simp)) (others _ (by simp) (by simp)),
    total, issued.congr (others _ (by simp) (by simp)) (others _ (by simp) (by simp)), granted⟩

theorem apply_fresh (g : Genesis) (fresh : db.Fresh) : g.apply db = match g.check with
    | .error e => (.error e, db)
    | .ok _ => g.populate.adapt .database db := by
  have unused : ¬ db.size ≠ 0 := fun some => some fresh.size
  unfold apply
  have current : (get : Change ChainError Database) db = (.ok db, db) := rfl
  rw [bind_apply, current]
  dsimp only
  rw [if_neg unused, bind_apply]
  cases g.check <;> rfl

-- What a genesis announces: who is there, under which number, and who has been given what.
structure Announced (g : Genesis) (db : Database) : Prop where
  committee : ∃ account : Account, db.row? .account committeeAccount.number = some account ∧
    account.id = committeeAccount ∧ account.name = committeeName
  witness : ∃ account : Account, db.row? .account witnessAccount.number = some account ∧
    account.id = witnessAccount ∧ account.name = witnessName
  -- The listed accounts that are not there already, in the order of the list.
  following : ∀ n a, (g.accounts.filter fun a => !isReserved a.name)[n]? = some a →
    ∃ account : Account, db.row? .account (2 + n) = some account ∧ account.id = ⟨2 + n⟩ ∧ account.name = a.name
  accountId_iff : ∀ name id, g.accountId? name = some id ↔
    ∃ account : Account, db.row? .account id.number = some account ∧ account.name = name
  accountId_none_iff : ∀ name, g.accountId? name = none ↔
    ∀ n (account : Account), db.row? .account n = some account → account.name ≠ name
  holdings : ∀ a ∈ g.accounts, ∃ id, g.accountId? a.name = some id ∧
    db.holding id RoomLedger.coreAsset = a.balance
  unlisted : ∀ owner asset, (∀ a ∈ g.accounts, g.accountId? a.name ≠ some owner) →
    db.balance? owner asset = none
  supply : ∃ (asset : AssetInfo) (supply : Supply),
    db.row? .asset RoomLedger.coreAsset.number = some asset ∧ asset.symbol = g.coreAsset.symbol ∧
      asset.precision = g.coreAsset.precision ∧ db.row? .supply asset.supply.number = some supply ∧
      supply.current.toInt = (g.accounts.map fun a => a.balance.toInt).sum ∧ supply.fees = 0

theorem Settled.holding (settled : g.Settled g.accounts db) (sensible : g.Sensible) (listed : a ∈ g.accounts) :
    db.holding (g.seat a.name) RoomLedger.coreAsset = a.balance := by
  by_cases pays : 0 < a.balance
  · have member : a ∈ funded g.accounts := List.mem_filter.mpr ⟨listed, by simpa using pays⟩
    obtain ⟨n, inside, place⟩ := List.getElem_of_mem member
    have stored : db.row? .balance n = some (g.balanceOf n a) := by
      rw [settled.balances.rows, List.getElem?_eq_getElem inside, place]
      rfl
    have held := holding_of_row? settled.sound stored
    simpa only [balanceOf] using held
  · have nothing : a.balance = 0 := by
      have nonneg := Shares.nonneg_iff.mp (sensible.nonneg a listed)
      rw [Shares.pos_iff] at pays
      exact Int64.toInt_inj.mp (by rw [Int64.toInt_zero]; omega)
    rw [nothing]
    refine holding_of_none settled.sound fun n b stored same => ?_
    rw [settled.balances.rows, Option.map_eq_some_iff] at stored
    obtain ⟨c, place, rfl⟩ := stored
    obtain ⟨member, paid⟩ := List.mem_filter.mp (List.mem_of_getElem? place)
    have equal : a.name = c.name :=
      (List.idxOf_inj (mem_seats_of_mem listed)).mp (congrArg RecordId.number same.1.symm)
    have one : a = c := List.inj_on_of_nodup_map sensible.distinct listed member equal
    rw [← one] at paid
    exact pays (by simpa using paid)

theorem Settled.unlisted (settled : g.Settled g.accounts db) {owner : AccountId}
    (absent : ∀ a ∈ g.accounts, g.accountId? a.name ≠ some owner) (asset : AssetId) :
    db.balance? owner asset = none := by
  cases found : db.balance? owner asset with
  | none => rfl
  | some b =>
    obtain ⟨stored, held, -⟩ := balance?_eq_some settled.sound found
    rw [settled.balances.rows, Option.map_eq_some_iff] at stored
    obtain ⟨a, place, same⟩ := stored
    rw [← same] at held
    have member := (List.mem_filter.mp (List.mem_of_getElem? place)).1
    exact absurd (held ▸ accountId?_eq_seat (mem_seats_of_mem member)) (absent a member)

theorem announced_of_settled (sensible : g.Sensible) (settled : g.Settled g.accounts db) {total : Shares}
    (issued : g.Issued total db) (granted : total.toInt = g.granted) : g.Announced db where
  committee := ⟨_, settled.accounts.rows 0, rfl, rfl⟩
  witness := ⟨_, settled.accounts.rows 1, rfl, rfl⟩
  following n a place := by
    refine ⟨accountOf (2 + n) a.name, ?_, rfl, rfl⟩
    rw [settled.accounts.rows, Nat.add_comm 2 n]
    change Option.map _ (((g.accounts.filter fun a => !isReserved a.name).map GenesisAccount.name)[n]?) = _
    rw [List.getElem?_map, place]
    rfl
  accountId_iff name id := by
    rw [accountId?_eq_some_iff sensible.distinct, settled.accounts.rows]
    cases place : (seats g.accounts)[id.number]? with
    | none => simp
    | some other =>
      constructor
      · intro same
        cases same
        exact ⟨_, rfl, rfl⟩
      · intro given
        obtain ⟨_, same, named⟩ := given
        cases same
        exact congrArg some named
  accountId_none_iff name := by
    rw [accountId?_eq_none_iff]
    constructor
    · intro missing n account stored named
      rw [settled.accounts.rows, Option.map_eq_some_iff] at stored
      obtain ⟨_, place, rfl⟩ := stored
      exact missing (named ▸ List.mem_of_getElem? place)
    · intro missing seated
      obtain ⟨n, inside, place⟩ := List.getElem_of_mem seated
      refine missing n (accountOf n name) ?_ rfl
      rw [settled.accounts.rows, List.getElem?_eq_getElem inside, place]
      rfl
  holdings a listed := ⟨_, accountId?_eq_seat (mem_seats_of_mem listed), settled.holding sensible listed⟩
  unlisted _ asset absent := settled.unlisted absent asset
  supply := ⟨_, _, issued.asset.rows 0, rfl, rfl, issued.supply.rows 0, granted, rfl⟩

-- Applied outside of any session, a genesis could not be taken back. So it is refused by its check,
-- without a trace, or it is true to what it announces.
theorem genesis_keeps_promises (g : Genesis) (db : Database) (fresh : db.Fresh) :
    ((∃ after, g.apply db = (.ok (), after)) ↔ g.Sensible) ∧
    (∀ e after, g.apply db = (.error e, after) → after = db) ∧
    (∀ after, g.apply db = (.ok (), after) → g.Announced after) := by
  rw [apply_fresh g fresh, ← check_eq_ok_iff]
  cases checked : g.check with
  | error e =>
    refine ⟨⟨fun ⟨after, run⟩ => (nomatch run), fun ok => (nomatch ok)⟩, fun _ after run => ?_,
      fun after run => ?_⟩
    · cases run
      rfl
    · cases run
  | ok _ =>
    have sensible := check_eq_ok_iff.mp checked
    obtain ⟨_, last, run, settled, total, issued, granted⟩ :=
      (populate_ends sensible fresh).adapt ChainError.database
    dsimp only
    rw [run]
    refine ⟨⟨fun _ => rfl, fun _ => ⟨last, rfl⟩⟩, fun _ after run => ?_, fun after run => ?_⟩
    · cases run
    · cases run
      exact announced_of_settled sensible settled issued granted

def sample : Genesis := .ofAccounts ⟨1000⟩ [⟨"alice", 500⟩, ⟨witnessName, 70⟩, ⟨"bob", 0⟩]

theorem genesis_keeps_promises_sample : empty.registerAll.Fresh ∧ sample.Sensible ∧
    (∃ after, sample.apply empty.registerAll = (.ok (), after) ∧ sample.Announced after) ∧
      sample.accountId? "bob" = some ⟨3⟩ := by
  obtain ⟨accepted, -, announced⟩ := genesis_keeps_promises sample _ registerAll_fresh
  have sensible : sample.Sensible := check_eq_ok_iff.mp (by decide +kernel)
  obtain ⟨after, run⟩ := accepted.mpr sensible
  exact ⟨registerAll_fresh, sensible, ⟨after, run, announced after run⟩, by decide +kernel⟩

end Genesis

end RoomLedger
