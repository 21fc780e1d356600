import RoomLedger.Proofs.ApprovalSafety
import RoomLedger.Proofs.BlockHistory
import RoomLedger.Proofs.OrderlyRules

namespace RoomLedger

open Database Change

variable {config : Config} {db mid after : Database} {k : Kind} {n : Nat} {row : k.Row} {total : Int}

namespace Database

-- The records that the ledger cannot do without.
def anchors : List Place :=
  [(⟨0⟩ : GlobalsId).place, (⟨0⟩ : HeadId).place, committeeAccount.place, witnessAccount.place, coreAsset.place]

structure Orderly (config : Config) (db : Database) : Prop where
  inOrder : db.InOrder config
  anchored : ∀ place ∈ anchors, db.Stores place

structure Extends (config : Config) (db after : Database) : Prop where
  continues : db.Continues after
  inOrder : after.InOrder config
  stores : ∀ place, db.Stores place → after.Stores place

theorem Extends.refl (sound : db.Sound) (inOrder : db.InOrder config) : db.Extends config db :=
  ⟨.refl sound, inOrder, fun _ stores => stores⟩

theorem Extends.trans (first : db.Extends config mid) (second : mid.Extends config after) :
    db.Extends config after :=
  ⟨first.continues.trans second.continues, second.inOrder, fun place stores =>
    second.stores place (first.stores place stores)⟩

theorem Puts.extends (puts : db.Puts k n (some row) after) (inOrder : db.InOrder config)
    (referred : ∀ place ∈ k.references row, after.Stores place) (formed : k.WellFormed config row) :
    db.Extends config after :=
  ⟨puts.continues, inOrder.put puts referred formed, fun _ stores => stores.put puts⟩

theorem registerAll_inOrder (config : Config) : empty.registerAll.InOrder config := by
  refine ⟨fun k n row stored => ?_, fun k n row stored => ?_⟩
  · rw [row?_registerAll] at stored
    cases stored
  · rw [row?_registerAll] at stored
    cases stored

end Database

namespace Genesis

theorem checkAccount_named {known result : List String × Shares} {a : GenesisAccount}
    (checked : checkAccount known a = .ok result) : Operation.isAccountName a.name = true := by
  unfold checkAccount at checked
  split at checked
  · cases checked
  · rename_i valid
    simpa using valid

theorem openAccount_extends (sound : db.Sound) (inOrder : db.InOrder config) {registrar account : AccountId}
    {name : String} (known : db.Stores registrar.place) (named : Operation.isAccountName name = true)
    (run : openAccount registrar name db = (.ok account, after)) :
    db.Extends config after ∧ after.Stores account.place := by
  obtain ⟨now, here, current, run⟩ := bind_eq_ok run
  cases current
  cases found : db.accountNamed? name with
  | some row =>
    rw [found] at run
    cases run
    obtain ⟨stored, -⟩ := (accountNamed?_eq_some_iff sound).mp found
    exact ⟨.refl sound inOrder, row, stored⟩
  | none =>
    rw [found] at run
    obtain ⟨row, mid, created, left⟩ := bind_eq_ok run
    cases left
    obtain ⟨rfl, puts, -⟩ := create_eq_ok sound created
    exact ⟨puts.extends inOrder (List.forall_mem_singleton.mpr (known.put puts)) named, puts.stores⟩

theorem endow_extends (sound : db.Sound) (inOrder : db.InOrder config) {registrar : AccountId}
    {sum result : Shares} {a : GenesisAccount} (known : db.Stores registrar.place)
    (core : db.Stores RoomLedger.coreAsset.place) (named : Operation.isAccountName a.name = true)
    (run : endow registrar sum a db = (.ok result, after)) : db.Extends config after := by
  obtain ⟨account, mid, opened, run⟩ := bind_eq_ok run
  obtain ⟨first, owner⟩ := openAccount_extends sound inOrder known named opened
  split at run
  · obtain ⟨row, last, created, left⟩ := bind_eq_ok run
    cases left
    obtain ⟨rfl, puts, -⟩ := create_eq_ok (first.continues.sound sound) created
    exact first.trans (puts.extends first.inOrder (List.forall_mem_cons.mpr ⟨owner.put puts,
      List.forall_mem_singleton.mpr ((first.stores _ core).put puts)⟩) trivial)
  · cases run
    exact first

theorem endowAll_extends (accounts : List GenesisAccount) {known checked : List String × Shares}
    (approved : accounts.foldlM checkAccount known = .ok checked) (sound : db.Sound)
    (inOrder : db.InOrder config) {registrar : AccountId} {sum result : Shares}
    (stored : db.Stores registrar.place) (core : db.Stores RoomLedger.coreAsset.place)
    (run : accounts.foldlM (endow registrar) sum db = (.ok result, after)) : db.Extends config after := by
  induction accounts generalizing known sum db with
  | nil =>
    cases run
    exact .refl sound inOrder
  | cons a rest ih =>
    rw [List.foldlM_cons] at approved run
    obtain ⟨_, one, approved⟩ := exists_of_bind_eq_ok approved
    obtain ⟨_, mid, first, run⟩ := bind_eq_ok run
    have first := endow_extends sound inOrder stored core (checkAccount_named one) first
    exact first.trans (ih approved (first.continues.sound sound) first.inOrder (first.stores _ stored)
      (first.stores _ core) run)

structure Founding (config : Config) (db : Database) : Prop where
  sound : db.Sound
  inOrder : db.InOrder config
  committee : db.Stores committeeAccount.place
  witness : db.Stores witnessAccount.place
  core : db.Stores RoomLedger.coreAsset.place

theorem Founding.later (founding : Founding config db) (later : db.Extends config after) :
    Founding config after :=
  ⟨later.continues.sound founding.sound, later.inOrder, later.stores _ founding.committee,
    later.stores _ founding.witness, later.stores _ founding.core⟩

theorem founding_of_puts {one two three : Database} {supply : Supply} {symbol : String} {precision : UInt8}
    (first : empty.registerAll.Puts .account 0 (some ⟨⟨0⟩, committeeName, ⟨0⟩⟩) one)
    (second : one.Puts .account 1 (some ⟨⟨1⟩, witnessName, ⟨0⟩⟩) two)
    (third : two.Puts .supply 0 (some supply) three)
    (fourth : three.Puts .asset 0 (some ⟨⟨0⟩, symbol, precision, ⟨0⟩, ⟨0⟩⟩) after) : Founding config after := by
  have named : Operation.isAccountName committeeName = true ∧ Operation.isAccountName witnessName = true := by
    decide +kernel
  have committee : one.Stores committeeAccount.place := first.stores
  have inOrder := (registerAll_inOrder config).put first
    (List.forall_mem_singleton.mpr committee) named.1
  have inOrder := inOrder.put second (List.forall_mem_singleton.mpr (committee.put second)) named.2
  have inOrder := inOrder.put third (fun _ none => nomatch none) trivial
  have committee := ((committee.put second).put third).put fourth
  have inOrder := inOrder.put fourth (List.forall_mem_cons.mpr ⟨committee,
    List.forall_mem_singleton.mpr (third.stores.put fourth)⟩) trivial
  have continues := ((first.continues.trans second.continues).trans third.continues).trans fourth.continues
  exact ⟨continues.sound (foldl_register_sound Kind.all empty_sound).1, inOrder, committee,
    (second.stores.put third).put fourth, fourth.stores⟩

-- The accounts are endowed, the supply is set, and the chain gets its parameters and its head.
theorem Founding.orderly {g : Genesis} {five six seven : Database} {supply : SupplyId}
    {total : Shares} {known : List String × Shares} {globals : Globals} {head : Head}
    (founding : Founding config db) (unused : ∀ k, k ∈ [Kind.globals, .head] → db.next k = 0)
    (approved : g.accounts.foldlM checkAccount ([], 0) = .ok known)
    (paid : g.accounts.foldlM (endow committeeAccount) 0 db = (.ok total, five))
    (supplied : Database.modify .supply supply.id (fun s => { s with current := total }) five = (.ok (), six))
    (ruled : create .globals (fun r => { r with parameters := ⟨g.fees⟩ }) six = (.ok globals, seven))
    (headed : create .head (fun h => { h with number := 0, time := g.time }) seven = (.ok head, after)) :
    after.Orderly config := by
  have edits : Edits [.account, .balance] (g.accounts.foldlM (endow committeeAccount) 0) :=
    foldlM_edits (endow_edits (by simp) (by simp) committeeAccount) g.accounts 0
  have edited := edits db
  rw [paid] at edited
  have founding := founding.later
    (endowAll_extends g.accounts approved founding.sound founding.inOrder founding.committee founding.core paid)
  obtain ⟨_, -, supplied, -⟩ := modify_eq_ok founding.sound supplied
  have founding := founding.later (supplied.extends founding.inOrder (fun _ none => nomatch none) trivial)
  obtain ⟨-, ruled, -⟩ := create_eq_ok founding.sound ruled
  have founding := founding.later (ruled.extends founding.inOrder (fun _ none => nomatch none) trivial)
  obtain ⟨-, headed, -⟩ := create_eq_ok founding.sound headed
  have founding := founding.later (headed.extends founding.inOrder (fun _ none => nomatch none) trivial)
  rw [supplied.next_other (by simp), next_congr (edited.tables (by simp)), unused _ (by simp)] at ruled
  rw [ruled.next_other (by simp), supplied.next_other (by simp), next_congr (edited.tables (by simp)),
    unused _ (by simp)] at headed
  refine ⟨founding.inOrder, ?_⟩
  simp only [anchors, List.forall_mem_cons]
  exact ⟨ruled.stores.put headed, headed.stores, founding.committee, founding.witness, founding.core,
    fun _ none => nomatch none⟩

theorem populate_orderly {g : Genesis} (checked : g.check = .ok ())
    (run : g.populate empty.registerAll = (.ok (), db)) : db.Orderly config := by
  have sound : empty.registerAll.Sound := (foldl_register_sound Kind.all empty_sound).1
  obtain ⟨committee, one, made, run⟩ := bind_eq_ok run
  obtain ⟨same, first, counted⟩ := create_eq_ok sound made
  rw [next_registerAll] at same first counted
  have identity : committee.id = committeeAccount := by rw [same]; rfl
  rw [identity] at run
  obtain rfl := same
  have sound := first.continues.sound sound
  obtain ⟨witness, two, made, run⟩ := bind_eq_ok run
  obtain ⟨rfl, second, -⟩ := create_eq_ok sound made
  rw [counted] at second
  have sound := second.continues.sound sound
  obtain ⟨supply, three, made, run⟩ := bind_eq_ok run
  obtain ⟨same, third, -⟩ := create_eq_ok sound made
  rw [second.next_other (by simp), first.next_other (by simp), next_registerAll] at same third
  have identity : supply.id = ⟨0⟩ := by rw [same]; rfl
  rw [identity] at run
  have sound := third.continues.sound sound
  obtain ⟨asset, four, made, run⟩ := bind_eq_ok run
  obtain ⟨rfl, fourth, -⟩ := create_eq_ok sound made
  have unused : ∀ k, k ∈ [Kind.globals, .head] → four.next k = 0 := by
    intro k listed
    have apart : k ≠ .account ∧ k ≠ .supply ∧ k ≠ .asset := by revert k; decide
    rw [fourth.next_other apart.2.2, third.next_other apart.2.1, second.next_other apart.1,
      first.next_other apart.1, next_registerAll]
  rw [third.next_other (by simp), second.next_other (by simp), first.next_other (by simp),
    next_registerAll] at fourth
  have founding : Founding config four := founding_of_puts first second third fourth
  obtain ⟨_, approved⟩ := check_eq_ok checked
  obtain ⟨total, five, paid, run⟩ := bind_eq_ok run
  obtain ⟨_, six, supplied, run⟩ := bind_eq_ok run
  obtain ⟨globals, seven, ruled, run⟩ := bind_eq_ok run
  obtain ⟨head, eight, headed, run⟩ := bind_eq_ok run
  cases run
  exact founding.orderly unused approved paid supplied ruled headed

end Genesis

theorem Database.Orderly.congr (orderly : db.Orderly config) (rows : ∀ k n, after.row? k n = db.row? k n) :
    after.Orderly config :=
  ⟨orderly.inOrder.congr rows, fun place listed => (orderly.anchored place listed).congr rows⟩

theorem Operation.Performed.orderly {c : Context} {op : Operation} {outcome : Outcome}
    (performed : op.Performed c outcome after) (sound : c.db.Sound) (orderly : c.db.Orderly c.config) :
    after.Orderly c.config := by
  have kinds : ∀ place ∈ anchors, place.kind ∈ lasting := by decide
  refine ⟨performed.inOrder sound orderly.inOrder (orderly.anchored _ (by simp [anchors])), ?_⟩
  intro place listed
  obtain ⟨row, stored⟩ := orderly.anchored place listed
  exact ⟨row, performed.keeps sound (kinds place listed) stored⟩

namespace Chain

variable {ω : Type} {first last : Chain ω} {genesis : Genesis} {observers : List ω}

theorem orderly_lasts : Lasting total config fun db => db.Orderly config := by
  refine ⟨?_, ?_, ?_⟩
  · intro db after _ _ same orderly
    exact orderly.congr fun k n => by rw [row?_eq_contents, row?_eq_contents, same]
  · intro db after number time standing orderly advanced
    obtain ⟨head, -, puts, -⟩ := modify_eq_ok standing.grounded.sound advanced
    exact ⟨orderly.inOrder.put puts (fun _ none => nomatch none) trivial, fun place listed =>
      (orderly.anchored place listed).put puts⟩
  · intro db time fee results op outcome after standing orderly performed
    exact performed.orderly standing.grounded.sound orderly

theorem start_orderly (started : start config genesis observers = .ok first) :
    first.Idle genesis.granted ∧ first.config = config ∧ first.db.Orderly config := by
  obtain ⟨standing, level, closed, -⟩ := start_eq_ok started
  obtain ⟨applied, same⟩ := start_applies started
  obtain ⟨valid, populated⟩ := Genesis.apply_populates applied
  exact ⟨⟨closed, level, standing⟩, congrArg Chain.config same, Genesis.populate_orderly valid populated⟩

end Chain

namespace Database

-- What a record refers to is there, the anchors are there, and names and keys are as they must be.
structure Integral (config : Config) (db : Database) : Prop where
  anchored : db.contains .globals ⟨2, 0, 0⟩ ∧ db.contains .head ⟨2, 1, 0⟩ ∧ db.contains .account ⟨1, 2, 0⟩ ∧
    db.contains .account ⟨1, 2, 1⟩ ∧ db.contains .asset ⟨1, 3, 0⟩
  accounts : ∀ a ∈ db.rows .account, db.contains .account a.registrar.id ∧ Operation.isAccountName a.name
  accountNames : ((db.rows .account).map Account.name).Nodup
  assets : ∀ a ∈ db.rows .asset, db.contains .account a.issuer.id ∧ db.contains .supply a.supply.id
  sports : ∀ s ∈ db.rows .sport, s.name.isWellFormed
  eventGroups : ∀ g ∈ db.rows .eventGroup, db.contains .sport g.sport.id ∧ g.name.isWellFormed
  rooms : ∀ r ∈ db.rows .room, db.contains .account r.owner.id ∧ r.name ≠ "" ∧
    r.name.utf8ByteSize ≤ min 256 config.maxRoomName.toNat ∧ r.roomKey ≠ ""
  roomNames : ((db.rows .room).map fun r => (r.owner, r.name)).Nodup
  participants : ∀ p ∈ db.rows .participant, db.contains .room p.room.id ∧ db.contains .account p.account.id ∧
    p.contentKey ≠ ""
  epochKeys : ∀ e ∈ db.rows .epochKey, db.contains .room e.room.id ∧ db.contains .account e.account.id ∧
    e.contentKey ≠ ""
  balances : ∀ b ∈ db.rows .balance, db.contains .account b.owner.id ∧ db.contains .asset b.asset.id

theorem Stores.contains {id : RecordId k} (stores : db.Stores id.place) : db.contains k id.id := by
  obtain ⟨row, stored⟩ := stores
  have found : db.find k id.id = .ok (some row) := find_of_row? stored
  unfold Database.contains
  rw [found]

theorem Orderly.integral (orderly : db.Orderly config) (sound : db.Sound) : db.Integral config := by
  have text : ∀ {text : String}, text.isEmpty = false → text ≠ "" := by
    rintro text some rfl
    cases some
  have anchored := orderly.anchored
  simp only [anchors, List.forall_mem_cons] at anchored
  obtain ⟨globals, head, committee, witness, core, -⟩ := anchored
  -- Each condition is one of these two, for the references and the texts of one kind.
  have each : ∀ {k : Kind} {row : k.Row}, row ∈ db.rows k →
      (∀ place ∈ k.references row, db.Stores place) ∧ k.WellFormed config row := by
    intro k row listed
    have stored := (mem_rows sound).mp listed
    exact ⟨orderly.inOrder.referred _ _ _ stored, orderly.inOrder.formed _ _ _ stored⟩
  refine ⟨⟨globals.contains, head.contains, committee.contains, witness.contains, core.contains⟩, ?_, ?_, ?_, ?_,
    ?_, ?_, ?_, ?_, ?_, ?_⟩
  · intro a listed
    obtain ⟨referred, formed⟩ := each listed
    exact ⟨(referred _ (List.mem_singleton.mpr rfl)).contains, formed⟩
  · exact nodup_unique sound Account.name fun _ _ same => Table.collides_account.mpr same
  · intro a listed
    obtain ⟨referred, -⟩ := each listed
    obtain ⟨issuer, supply⟩ := List.forall_mem_cons.mp referred
    exact ⟨issuer.contains, (supply _ (List.mem_singleton.mpr rfl)).contains⟩
  · intro s listed
    exact (each listed).2
  · intro g listed
    obtain ⟨referred, formed⟩ := each listed
    exact ⟨(referred _ (List.mem_singleton.mpr rfl)).contains, formed⟩
  · intro r listed
    obtain ⟨referred, named, short, keyed⟩ := each listed
    exact ⟨(referred _ (List.mem_singleton.mpr rfl)).contains, text named, short, text keyed⟩
  · refine nodup_unique (k := .room) sound _ fun r s same => ?_
    obtain ⟨owner, name⟩ := Prod.mk.inj same
    exact Table.collides_room.mpr ⟨owner, name⟩
  · intro p listed
    obtain ⟨referred, keyed⟩ := each listed
    obtain ⟨room, account⟩ := List.forall_mem_cons.mp referred
    exact ⟨room.contains, (account _ (List.mem_singleton.mpr rfl)).contains, text keyed⟩
  · intro e listed
    obtain ⟨referred, keyed⟩ := each listed
    obtain ⟨room, account⟩ := List.forall_mem_cons.mp referred
    exact ⟨room.contains, (account _ (List.mem_singleton.mpr rfl)).contains, text keyed⟩
  · intro b listed
    obtain ⟨referred, -⟩ := each listed
    obtain ⟨owner, asset⟩ := List.forall_mem_cons.mp referred
    exact ⟨owner.contains, (asset _ (List.mem_singleton.mpr rfl)).contains⟩

end Database

namespace Chain

variable {ω : Type} {first last : Chain ω} {genesis : Genesis} {observers : List ω}

theorem references_hold [Observer ω] {answers : List (Except ChainError Unit)}
    (started : start config genesis observers = .ok first) (run : Run first answers last) :
    last.db.Integral config := by
  obtain ⟨idle, fixed, orderly⟩ := start_orderly started
  have sound := (run_steady (.idle idle) run).standing.grounded.sound
  exact (orderly_lasts.run idle fixed orderly run).integral sound

def openDen : Operation := .createRoom ⟨.core 2000000, ⟨2⟩, "den", "k0"⟩

def housed : Chain Watcher := (pushOperation openDen begun).2

theorem housed_run : Run founded [.ok (), .ok ()] housed := .call begun_run (.operation openDen) (by rfl)

theorem references_hold_housed :
    start .permissive funded [Watcher.idle] = .ok founded ∧ Run founded [.ok (), .ok ()] housed ∧
    housed.db.Integral .permissive ∧
    housed.db.rows .room = [⟨⟨0⟩, ⟨2⟩, "den", "k0", ⟨7⟩, 0⟩] ∧
    housed.db.rows .epochKey = [⟨⟨0⟩, ⟨0⟩, 0, ⟨2⟩, "k0"⟩] :=
  ⟨founded_started, housed_run, references_hold founded_started housed_run, by rfl, by rfl⟩

end Chain

end RoomLedger
