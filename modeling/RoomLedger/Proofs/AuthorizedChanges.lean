import RoomLedger.Proofs.BalanceMoves
import RoomLedger.Proofs.LedgerIntegrity
import RoomLedger.Proofs.RoomConfinement

namespace RoomLedger

open Database Change

variable {db mid after : Database} {k : Kind} {total : Int} {config : Config} {c : Context}
  {time : Timestamp} {outcome : Outcome} {signed : AccountId → Prop}

theorem Operation.Performed.spares {op : Operation} (performed : op.Performed c outcome after)
    (standing : c.db.Standing total) {account : AccountId} (other : account ≠ op.payer) :
    (c.db.holding account coreAsset).toInt ≤ (after.holding account coreAsset).toInt := by
  have moved : 0 ≤ op.moved account coreAsset := moved_nonneg performed.validated other
  rw [performed.moves standing, if_neg fun both => other both.1]
  omega

namespace Database

def Differs (db after : Database) (k : Kind) (row : k.Row) : Prop :=
  ¬ (row ∈ db.rows k ↔ row ∈ after.rows k)

-- Who is left with less has signed, and so has the owner of the room, the registrar of the account,
-- or the witness account where it is about sports.
structure Authorized (signed : AccountId → Prop) (db after : Database) : Prop where
  spent : ∀ account, after.holding account coreAsset < db.holding account coreAsset → signed account
  rooms : ∀ k (row : k.Row) room, k.housing row = some room → db.Differs after k row →
    (∃ owner, db.OwnedBy room owner ∨ after.OwnedBy room owner) ∧
      ∀ owner, db.OwnedBy room owner ∨ after.OwnedBy room owner → signed owner
  sports : ∀ k ∈ [Kind.sport, .eventGroup], ∀ row : k.Row, db.Differs after k row → signed witnessAccount
  registered : ∀ a ∈ after.rows .account, a ∉ db.rows .account → signed a.registrar
  accounts : ∀ a ∈ db.rows .account, a ∈ after.rows .account
  fixed : ∀ k ∈ [Kind.asset, .globals, .head], after.rows k = db.rows k

theorem Differs.step {row : k.Row} (differs : db.Differs after k row) (mid : Database) :
    db.Differs mid k row ∨ mid.Differs after k row := by
  by_cases early : db.Differs mid k row
  · exact .inl early
  · exact .inr fun same => differs ((Classical.not_not.mp early).trans same)

theorem differs_iff (sound : db.Sound) (sound' : after.Sound) {row : k.Row} : db.Differs after k row ↔
    ¬ (db.row? k (Stored.number row) = some row ↔ after.row? k (Stored.number row) = some row) := by
  rw [Differs, mem_rows sound, mem_rows sound']

-- A record of a room has a room, and that has an owner.
theorem InOrder.owned (inOrder : db.InOrder config) (sound : db.Sound) {row : k.Row} {room : RoomId}
    (housed : k.housing row = some room) (listed : row ∈ db.rows k) : ∃ owner, db.OwnedBy room owner := by
  have owned : db.Stores room.place → ∃ owner, db.OwnedBy room owner := by
    rintro ⟨r, stored⟩
    exact ⟨r.owner, (ownedBy_iff sound).mpr ⟨r, stored, rfl⟩⟩
  have referred := inOrder.referred k _ row ((mem_rows sound).mp listed)
  cases k with
  | room =>
    cases housed
    exact ⟨row.owner, row, listed, rfl, rfl⟩
  | participant | epochKey =>
    cases housed
    exact owned (referred _ (List.mem_cons_self ..))
  | _ => cases housed

theorem Differs.owned {row : k.Row} (differs : db.Differs after k row) (sound : db.Sound)
    (inOrder : db.InOrder config) (sound' : after.Sound) (inOrder' : after.InOrder config) {room : RoomId}
    (housed : k.housing row = some room) : ∃ owner, db.OwnedBy room owner ∨ after.OwnedBy room owner := by
  by_cases before : row ∈ db.rows k
  · obtain ⟨owner, owned⟩ := inOrder.owned sound housed before
    exact ⟨owner, .inl owned⟩
  · by_cases now : row ∈ after.rows k
    · obtain ⟨owner, owned⟩ := inOrder'.owned sound' housed now
      exact ⟨owner, .inr owned⟩
    · exact absurd (iff_of_false before now) differs

-- What has been signed for, in a ledger whose rooms keep their owners as long as there are these rooms.
structure Sanctioned (config : Config) (signed : AccountId → Prop) (db after : Database) : Prop where
  sound : after.Sound
  orderly : after.Orderly config
  grown : db.next .room ≤ after.next .room
  owners : ∀ room owner, room.number < db.next .room → after.OwnedBy room owner → db.OwnedBy room owner
  authorized : db.Authorized signed after

theorem Sanctioned.trans (sound : db.Sound) (inOrder : db.InOrder config)
    (first : db.Sanctioned config signed mid) (second : mid.Sanctioned config signed after) :
    db.Sanctioned config signed after := by
  have early := first.authorized
  have late := second.authorized
  refine ⟨second.sound, second.orderly, Nat.le_trans first.grown second.grown, ?_, ?_, ?_, ?_, ?_,
    fun a listed => late.accounts a (early.accounts a listed),
    fun k listed => (late.fixed k listed).trans (early.fixed k listed)⟩
  · intro room owner known owned
    exact first.owners room owner known (second.owners room owner (Nat.lt_of_lt_of_le known first.grown) owned)
  -- Who ends up with less has lost something in one of the two parts.
  · intro account less
    rw [Int64.lt_iff_toInt_lt] at less
    by_cases sooner : (mid.holding account coreAsset).toInt < (db.holding account coreAsset).toInt
    · exact early.spent account (Int64.lt_iff_toInt_lt.mpr sooner)
    · exact late.spent account (Int64.lt_iff_toInt_lt.mpr (by omega))
  · intro k row room housed differs
    refine ⟨differs.owned sound inOrder second.sound second.orderly.inOrder housed, fun owner owned => ?_⟩
    rcases differs.step mid with differs | differs
    · obtain ⟨⟨a, there⟩, signs⟩ := early.rooms k row room housed differs
      rcases owned with before | now
      · exact signs owner (.inl before)
      · have known : room.number < mid.next .room := by
          rcases there with there | there
          · exact Nat.lt_of_lt_of_le (there.bounded sound) first.grown
          · exact there.bounded first.sound
        exact signs owner (.inr (second.owners room owner known now))
    · obtain ⟨⟨a, there⟩, signs⟩ := late.rooms k row room housed differs
      rcases owned with before | now
      -- The room has the owner that it had, whoever is found to own it later.
      · have known := before.bounded sound
        have same : db.OwnedBy room a := by
          rcases there with there | there
          · exact first.owners room a known there
          · exact first.owners room a known (second.owners room a (Nat.lt_of_lt_of_le known first.grown) there)
        rw [same.unique sound before] at there
        exact signs owner there
      · exact signs owner (.inr now)
  · intro k listed row differs
    rcases differs.step mid with differs | differs
    · exact early.sports k listed row differs
    · exact late.sports k listed row differs
  · intro a listed new
    by_cases there : a ∈ mid.rows .account
    · exact early.registered a there new
    · exact late.registered a listed there

theorem sanctioned_of_contents (orderly : db.Orderly config) (sound' : after.Sound)
    (same : after.contents = db.contents) : db.Sanctioned config signed after := by
  have rows : ∀ k, after.rows k = db.rows k := fun k => rows_congr (by rw [same])
  have still : ∀ {k : Kind} {row : k.Row}, ¬ db.Differs after k row := by
    intro k row differs
    exact differs (by rw [rows])
  refine ⟨sound', orderly.congr fun k n => by rw [row?_eq_contents, row?_eq_contents, same], ?_, ?_, ?_, ?_, ?_,
    ?_, ?_, fun k _ => rows k⟩
  · rw [next_eq_contents, next_eq_contents, same]
  · intro room owner _ owned
    unfold OwnedBy at owned ⊢
    rwa [rows] at owned
  · intro account less
    have kept : after.holding account coreAsset = db.holding account coreAsset :=
      holding_congr (by rw [same]) account coreAsset
    rw [kept, Int64.lt_iff_toInt_lt] at less
    exact absurd less (Int.lt_irrefl _)
  · exact fun k row room _ differs => absurd differs still
  · exact fun k _ row differs => absurd differs still
  · intro a listed new
    rw [rows] at listed
    exact absurd listed new
  · intro a listed
    rwa [rows]

end Database

namespace Operation

theorem witness_of_written (op : Operation) {k : Kind} (listed : k ∈ [Kind.sport, .eventGroup])
    (written : k ∈ op.kind.written) : op.payer = witnessAccount := by
  cases op <;> first | rfl | (exfalso; revert k; simp only [kind]; decide)

theorem createAccount_of_written (op : Operation) (written : .account ∈ op.kind.written) :
    ∃ p, op = .createAccount p := by
  cases op <;> first | exact ⟨_, rfl⟩ | (exfalso; revert written; simp only [kind]; decide)

theorem fixed_not_mem_written {j : OperationKind} {k : Kind} (listed : k ∈ [Kind.asset, .globals, .head]) :
    k ∉ j.written ++ [Kind.balance, .supply] := by
  cases j <;> (revert k; decide)

theorem Performed.authorized {op : Operation} (performed : op.Performed c outcome after)
    (standing : c.db.Standing total) (inOrder : c.db.InOrder c.config) (inOrder' : after.InOrder c.config)
    (signs : signed op.payer) : c.db.Authorized signed after := by
  have sound := standing.grounded.sound
  have edited := performed.edited
  have sound' := performed.sound sound
  have same : ∀ {k}, k ∉ op.kind.written ++ [.balance, .supply] → after.rows k = c.db.rows k :=
    fun unwritten => rows_congr (contents_congr (edited.tables unwritten))
  have money : ∀ k ∈ [Kind.sport, .eventGroup], k ∉ [Kind.balance, .supply] := by decide
  refine ⟨fun account less => ?_, fun k row other housed differs => ?_, fun k listed row differs => ?_,
    fun a listed new => ?_, fun a listed => ?_, fun k listed => ?_⟩
  · by_cases payer : account = op.payer
    · rw [payer]
      exact signs
    · have kept := performed.spares standing payer
      rw [Int64.lt_iff_toInt_lt] at less
      omega
  -- The one room that is touched has the payer for its owner.
  · obtain ⟨room, within⟩ := performed.within sound
    refine ⟨differs.owned sound inOrder sound' inOrder' housed, fun owner owned => ?_⟩
    by_cases same : other = room
    · subst same
      rcases owned with before | now
      · rw [within.before owner before]
        exact signs
      · rw [within.after owner now]
        exact signs
    · exact absurd (within.confined k _ row other housed same).symm ((differs_iff sound sound').mp differs)
  · by_cases written : k ∈ op.kind.written
    · rw [← witness_of_written op listed written]
      exact signs
    · exact absurd (by rw [same (List.not_mem_append written (money k listed))]) differs
  · by_cases written : .account ∈ op.kind.written
    · obtain ⟨p, rfl⟩ := createAccount_of_written op written
      obtain ⟨plan, mid, -, -, carried, charged⟩ := performed.stages sound
      obtain ⟨n, -, puts⟩ := Rule.createAccount_steps sound carried
      rw [mem_rows sound', charge_keeps charged (by decide), puts.rows] at listed
      split at listed
      · cases listed
        exact signs
      · exact absurd (mem_rows_iff.mpr ⟨_, listed⟩) new
    · rw [same (List.not_mem_append written (by decide))] at listed
      exact absurd listed new
  · rw [mem_rows sound']
    exact performed.keeps sound (by decide) ((mem_rows sound).mp listed)
  · exact same (fixed_not_mem_written listed)

theorem Performed.sanctioned {op : Operation} (performed : op.Performed c outcome after)
    (standing : c.db.Standing total) (orderly : c.db.Orderly c.config) (signs : signed op.payer) :
    c.db.Sanctioned c.config signed after := by
  have sound := standing.grounded.sound
  have sound' := performed.sound sound
  have orderly' := performed.orderly sound orderly
  refine ⟨sound', orderly', performed.edited.grows sound _, fun other owner known owned => ?_,
    performed.authorized standing orderly.inOrder orderly'.inOrder signs⟩
  obtain ⟨room, within⟩ := performed.within sound
  by_cases same : other = room
  · subst same
    rw [within.after owner owned]
    exact within.known known
  · obtain ⟨r, stored, owns⟩ := (ownedBy_iff sound').mp owned
    have housed : Kind.housing .room r = some other :=
      congrArg some (congrArg RecordId.mk (sound'.numbered stored))
    exact (ownedBy_iff sound).mpr ⟨r, (within.confined .room _ r other housed same).mp stored, owns⟩

end Operation

theorem sanctioned_transition (config : Config) (signed : AccountId → Prop) :
    Transition fun db after => db.Sound ∧ db.Orderly config → db.Sanctioned config signed after := by
  refine ⟨?_, ?_⟩
  · intro db after _ sound same given
    exact sanctioned_of_contents given.2 sound same
  · intro db mid after first second given
    have early := first given
    exact early.trans given.1 given.2.inOrder (second ⟨early.sound, early.orderly⟩)

theorem Transaction.approve_signers {t : Transaction} (enforced : config.enforceAuthorities = true)
    (approved : t.approve config = .ok ()) {op : Operation} (member : op ∈ t.operations) :
    t.signers.contains op.payer = true := by
  obtain ⟨_, -, asked⟩ := exists_of_bind_eq_ok approved
  rw [if_pos enforced] at asked
  cases lacking : t.missing with
  | cons account rest =>
    rw [lacking] at asked
    cases asked
  | nil =>
    have required : op.payer ∈ t.required.toList := by
      rw [SortedSet.mem_toList_iff, required, SortedSet.contains_ofList, decide_eq_true_eq]
      exact List.mem_flatMap.mpr ⟨op, member, List.mem_singleton.mpr rfl⟩
    simpa using List.filter_eq_nil_iff.mp lacking op.payer required

theorem Transaction.perform_sanctioned (t : Transaction) (total : Int) (enforced : config.enforceAuthorities = true)
    (approved : t.approve config = .ok ()) (time : Timestamp) :
    (t.perform config time).Leads total fun db after =>
      db.Sound ∧ db.Orderly config → db.Sanctioned config (fun account => t.signers.contains account) after :=
  perform_leads (sanctioned_transition config _) fun op member =>
    op.perform_leads fun _ _ _ _ _ standing performed given =>
      performed.sanctioned standing given.2 (t.approve_signers enforced approved member)

namespace Chain

variable {ω : Type} {first last after : Chain ω} {genesis : Genesis} {observers : List ω}

theorem pushTransaction_closed {c : Chain ω} (closed : c.openBlock = none) (t : Transaction) :
    ∃ e last, pushTransaction t c = (.error e, last) := by
  unfold pushTransaction
  cases c.ensureRunning with
  | error e => exact ⟨e, c, rfl⟩
  | ok _ =>
    have refused : performTransaction t c = (.error .noActiveSession, c) := by
      unfold performTransaction blockTime
      rw [closed]
      rfl
    simp only [halting, recording, refused]
    exact ⟨_, _, rfl⟩

theorem changes_are_authorized [Observer ω] {answers : List (Except ChainError Unit)} {t : Transaction}
    {results : List Outcome} (enforced : config.enforceAuthorities = true)
    (started : start config genesis observers = .ok first) (run : Run first answers last)
    (pushed : pushTransaction t last = (.ok results, after)) :
    last.db.Authorized (fun account => t.signers.contains account) after.db := by
  obtain ⟨idle, fixed, orderly⟩ := start_orderly started
  obtain ⟨history, holds⟩ := orderly_lasts.isTrue idle fixed orderly run
  cases holds with
  | idle idle =>
    obtain ⟨e, last, refused⟩ := pushTransaction_closed idle.idle.closed t
    rw [pushed] at refused
    cases refused
  | busy busy =>
    obtain ⟨block, opened, orderly⟩ := busy.pending
    rcases busy.busy.pushTransaction_cases opened t with ⟨_, db, approved, performed, answer⟩ | ⟨_, -, answer⟩
    · rw [pushed] at answer
      cases answer
      rw [busy.config] at approved performed
      have leads := t.perform_sanctioned genesis.granted enforced approved block.receipt.time
      exact (leads.leads _ _ _ busy.busy.standing performed ⟨busy.busy.standing.grounded.sound, orderly⟩).authorized
    · rw [pushed] at answer
      cases answer

def guarded : Chain Watcher := ⟨(funded.apply empty.registerAll).2, .standard, [.idle], none, none⟩

def guardedBegun : Chain Watcher := (beginBlock 1 ⟨7⟩ guarded).2

def signedDen : Transaction := (Transaction.single openDen).signedBy ⟨2⟩

def guardedDen : Chain Watcher := (pushTransaction signedDen guardedBegun).2

theorem guarded_started : start .standard funded [Watcher.idle] = .ok guarded := by rfl

theorem guardedBegun_run : Run guarded [.ok ()] guardedBegun := .call .nil (.begin 1 ⟨7⟩) (by rfl)

theorem signedDen_pushed :
    pushTransaction signedDen guardedBegun = (.ok [.object (⟨0⟩ : RoomId).id], guardedDen) := by
  have answered : (pushTransaction signedDen guardedBegun).1 = .ok [.object (⟨0⟩ : RoomId).id] := by decide +kernel
  exact Prod.ext answered rfl

theorem changes_are_authorized_den :
    Config.standard.enforceAuthorities = true ∧ start .standard funded [Watcher.idle] = .ok guarded ∧
    Run guarded [.ok ()] guardedBegun ∧
    pushTransaction signedDen guardedBegun = (.ok [.object (⟨0⟩ : RoomId).id], guardedDen) ∧
    guardedBegun.db.Authorized (fun account => signedDen.signers.contains account) guardedDen.db ∧
    guardedBegun.db.rows .room = ([] : List Room) ∧
    guardedDen.db.rows .room = ([⟨⟨0⟩, ⟨2⟩, "den", "k0", ⟨7⟩, 0⟩] : List Room) ∧
    (pushTransaction (.single openDen) guardedBegun).1 = .error (.refused (.missingAuthority ⟨2⟩)) :=
  ⟨rfl, guarded_started, guardedBegun_run, signedDen_pushed,
    changes_are_authorized rfl guarded_started guardedBegun_run signedDen_pushed, by decide +kernel,
    by decide +kernel, by decide +kernel⟩

end Chain

end RoomLedger
