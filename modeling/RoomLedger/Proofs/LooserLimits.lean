import RoomLedger.Chain.Replay
import RoomLedger.Proofs.CoveredChanges
import RoomLedger.Proofs.LedgerIntegrity

namespace RoomLedger

open Database Change

-- Settings of a chain that refuses no more. What is done about refusals does not matter.
structure Config.Loosens (tight loose : Config) : Prop where
  names : tight.maxRoomName ≤ loose.maxRoomName
  members : tight.maxParticipants ≤ loose.maxParticipants
  authorities : loose.enforceAuthorities = true → tight.enforceAuthorities = true

variable {c : Context} {tight loose : Config} {time : Timestamp}

def Context.under (c : Context) (config : Config) : Context := { c with config := config }

section examinations

variable (loosens : c.config.Loosens loose)

include loosens

theorem Context.checkRoomName_under {owner : AccountId} {name : String}
    (ok : c.checkRoomName owner name = .ok ()) : (c.under loose).checkRoomName owner name = .ok () := by
  have wider : c.config.maxRoomName.toNat ≤ loose.maxRoomName.toNat := loosens.names
  unfold checkRoomName at ok ⊢
  dsimp only at ok ⊢
  split at ok
  · cases ok
  · rename_i short
    exact (if_neg (Nat.not_lt.mpr (Nat.le_trans (Nat.not_lt.mp short) wider))).trans ok

namespace Rule

theorem createRoom_under {p : CreateRoom} {plan : createRoom.Plan} (examined : createRoom.examine c p = .ok plan) :
    createRoom.examine (c.under loose) p = .ok plan := by
  obtain ⟨owner, got, named⟩ := exists_of_bind_eq_ok examined
  change ((c.get p.owner) >>= fun _ => (c.under loose).checkRoomName p.owner p.name) = _
  rw [got]
  exact Context.checkRoomName_under loosens named

theorem updateRoom_under {p : UpdateRoom} {plan : updateRoom.Plan} (examined : updateRoom.examine c p = .ok plan) :
    updateRoom.examine (c.under loose) p = .ok plan := by
  obtain ⟨room, owned, named⟩ := exists_of_bind_eq_ok examined
  change (c.ownedRoom p.room p.owner >>= fun room =>
    if room.name ≠ p.name then (c.under loose).checkRoomName p.owner p.name else .ok ()) = _
  rw [owned]
  by_cases other : room.name ≠ p.name
  · exact (if_pos other).trans (Context.checkRoomName_under loosens ((if_pos other).symm.trans named))
  · exact if_neg other

theorem addParticipant_under {p : AddParticipant} {plan : addParticipant.Plan}
    (examined : addParticipant.examine c p = .ok plan) :
    addParticipant.examine (c.under loose) p = .ok plan := by
  have wider : c.config.maxParticipants.toNat ≤ loose.maxParticipants.toNat := loosens.members
  obtain ⟨room, owned, rest⟩ := exists_of_bind_eq_ok examined
  obtain ⟨account, got, rest⟩ := exists_of_bind_eq_ok rest
  dsimp only at rest
  split at rest
  · cases rest
  rename_i free
  split at rest
  · cases rest
  rename_i space
  have vacant : ¬ loose.maxParticipants.toNat ≤ (c.db.participantsOf p.room).length := by omega
  change (c.ownedRoom p.room p.owner >>= fun room => c.get p.participant >>= fun _ => _) = _
  rw [owned]
  change (c.get p.participant >>= fun _ => _) = _
  rw [got]
  exact (if_neg free).trans ((if_neg vacant).trans rest)

end Rule

namespace Operation

theorem examine_under {op : Operation} {plan : op.Plan} (examined : op.examine c = .ok plan) :
    op.examine (c.under loose) = .ok plan := by
  cases op with
  | createRoom p => exact Rule.createRoom_under loosens examined
  | updateRoom p => exact Rule.updateRoom_under loosens examined
  | addParticipant p => exact Rule.addParticipant_under loosens examined
  | _ => exact examined

end Operation

end examinations

namespace Operation

theorem approve_under (loosens : c.config.Loosens loose) {op : Operation} {approval : op.Approval}
    (approved : op.approve c = .ok approval) : op.approve (c.under loose) = .ok approval := by
  rw [approve_eq_ok_iff] at approved ⊢
  exact ⟨approved.1, examine_under loosens approved.2⟩

theorem perform_covers (loosens : tight.Loosens loose) (op : Operation) (results : List Outcome) :
    (op.perform loose time results).Covers (op.perform tight time results) :=
  covers_of_accepted (fun _ => rfl) fun db fee approval validated approved =>
    have approved' : op.approve ⟨db, loose, time, fee, results⟩ = .ok approval :=
      approve_under (c := ⟨db, tight, time, fee, results⟩) loosens approved
    ⟨validated, approval, approved', rfl⟩

end Operation

namespace Transaction

theorem perform_covers (loosens : tight.Loosens loose) (t : Transaction) :
    (t.perform loose time).Covers (t.perform tight time) :=
  (Covers.foldlM (fun results op =>
    (op.perform_covers loosens results).nested.bind fun _ => .refl _) t.operations []).nested

theorem approve_loosens (loosens : tight.Loosens loose) {t : Transaction} (approved : t.approve tight = .ok ()) :
    t.approve loose = .ok () := by
  obtain ⟨_, valid, signed⟩ := exists_of_bind_eq_ok approved
  unfold approve
  rw [valid]
  by_cases enforced : loose.enforceAuthorities = true
  · exact (if_pos enforced).trans ((if_pos (loosens.authorities enforced)).symm.trans signed)
  · exact if_neg enforced

end Transaction

namespace Chain

variable {ω : Type} {total : Int} {base : Database} {chain mid last : Chain ω} {block : OpenBlock}

def under (c : Chain ω) (config : Config) : Chain ω := { c with config := config }

theorem Idle.under (idle : chain.Idle total) (config : Config) : (chain.under config).Idle total :=
  ⟨idle.closed, idle.level, idle.standing⟩

theorem Busy.under (busy : chain.Busy total base) (config : Config) : (chain.under config).Busy total base :=
  ⟨⟨busy.inside.sound, busy.inside.continues, busy.inside.opened⟩, busy.level, busy.before, busy.standing,
    busy.running⟩

theorem begin_under (idle : chain.Idle total) {number : UInt32} {time : Timestamp}
    (run : beginBlock number time chain = (.ok (), mid)) (config : Config) :
    beginBlock number time (chain.under config) = (.ok (), mid.under config) ∧ mid.config = chain.config ∧
      mid.openBlock = some ⟨.empty number time, 0⟩ := by
  rcases idle.begin_cases number time with ⟨db, running, follows, advanced, answer⟩ | ⟨e, -, answer⟩
  · rw [run] at answer
    cases answer
    refine ⟨?_, rfl, rfl⟩
    rcases (idle.under config).begin_cases number time with ⟨db', -, -, advanced', answer⟩ | ⟨e, stuck, -⟩
    · change advance number time chain.db.push = _ at advanced'
      rw [advanced] at advanced'
      cases advanced'
      exact answer
    · exact absurd ⟨running, follows⟩ stuck
  · rw [run] at answer
    cases answer

theorem pushAll_rejected {ts : List Transaction} (busy : chain.Busy total base)
    (opened : chain.openBlock = some block) (run : pushAll ts chain = (.ok (), last)) :
    ∃ full, last.openBlock = some full ∧ block.receipt.rejected <+: full.receipt.rejected := by
  induction ts generalizing chain block with
  | nil =>
    cases run
    exact ⟨block, opened, List.prefix_refl _⟩
  | cons t rest ih =>
    have busy' := (busy.pushTransaction t).2
    rw [pushAll] at run
    rcases busy.pushTransaction_cases opened t with ⟨results, db, -, -, answer⟩ | ⟨cause, -, answer⟩
    · rw [answer] at run busy'
      obtain ⟨full, opened', kept⟩ := ih busy' rfl run
      exact ⟨full, opened', kept⟩
    · rw [answer] at run busy'
      dsimp only at run
      split at run
      · rw [bind_apply] at run
        split at run <;> cases run
      · obtain ⟨full, opened', kept⟩ := ih busy' rfl run
        exact ⟨full, opened', (List.prefix_append ..).trans kept⟩

theorem pushAll_under {ts : List Transaction} (busy : chain.Busy total base) (opened : chain.openBlock = some block)
    (loosens : chain.config.Loosens loose) (run : pushAll ts chain = (.ok (), last))
    (clean : ∀ full, last.openBlock = some full → full.receipt.rejected = []) :
    pushAll ts (chain.under loose) = (.ok (), last.under loose) ∧ last.Busy total base ∧
      last.config = chain.config ∧ ∃ full, last.openBlock = some full := by
  induction ts generalizing chain block with
  | nil =>
    cases run
    exact ⟨rfl, busy, rfl, block, opened⟩
  | cons t rest ih =>
    have busy' := (busy.pushTransaction t).2
    rw [pushAll] at run ⊢
    rcases busy.pushTransaction_cases opened t with ⟨results, db, approved, performed, answer⟩ | ⟨cause, -, answer⟩
    · rw [answer] at run busy'
      have approved' := Transaction.approve_loosens loosens approved
      have performed' := t.perform_covers loosens _ _ _ performed
      rcases (busy.under loose).pushTransaction_cases opened t with
        ⟨results', db', -, again, answer'⟩ | ⟨cause, refused, -⟩
      · change t.perform loose block.receipt.time chain.db = _ at again
        rw [performed'] at again
        cases again
        rw [answer']
        exact ih busy' rfl loosens run
      · have failed := refused approved'
        change t.perform loose block.receipt.time chain.db = _ at failed
        rw [performed'] at failed
        cases failed
    · -- A transaction that is refused ends the block, or it is listed in the receipt for good.
      rw [answer] at run busy'
      dsimp only at run
      split at run
      · rw [bind_apply] at run
        split at run <;> cases run
      · obtain ⟨full, opened', kept⟩ := pushAll_rejected busy' rfl run
        rw [clean full opened', List.prefix_nil] at kept
        simp [OpenBlock.record, ChainError.isFatal] at kept

theorem commit_under [Observer ω] (busy : chain.Busy total base) (opened : chain.openBlock = some block)
    {receipt : BlockReceipt} (run : commit chain = (.ok receipt, last)) (config : Config) :
    commit (chain.under config) = (.ok receipt, last.under config) ∧ last.config = chain.config ∧
      receipt = block.receipt ∧ last.Idle total := by
  rcases busy.commit with ⟨_, after, committed, idle, -⟩ | ⟨e, _, committed, -⟩
  · rw [run] at committed
    cases committed
    rcases commit_cases busy.inside busy.running opened with
      ⟨db, observers, told, merged, -, answer⟩ | ⟨e, _, -, answer, -⟩
    · rw [run] at answer
      cases answer
      refine ⟨?_, rfl, rfl, idle⟩
      rcases commit_cases (busy.under config).inside busy.running opened with
        ⟨db', observers', told', merged', -, answer⟩ | ⟨e, _, told', -⟩
      · change Observer.publish chain.db (chain.db.netChanges.notices block.receipt) chain.observers = _ at told'
        change Database.commit chain.db = _ at merged'
        rw [told] at told'
        rw [merged] at merged'
        cases told'
        cases merged'
        exact answer
      · change (Observer.publish chain.db (chain.db.netChanges.notices block.receipt) chain.observers).1 = _ at told'
        rw [told] at told'
        cases told'
    · rw [run] at answer
      cases answer
  · rw [run] at committed
    cases committed

theorem applyBlock_under [Observer ω] (idle : chain.Idle total) (loosens : chain.config.Loosens loose) {b : Block}
    {receipt : BlockReceipt} (run : applyBlock b chain = (.ok receipt, last)) (clean : receipt.rejected = []) :
    applyBlock b (chain.under loose) = (.ok receipt, last.under loose) ∧ last.config = chain.config ∧
      last.Idle total := by
  unfold applyBlock at run ⊢
  rw [bind_apply] at run ⊢
  rcases idle.begin b.number b.time with ⟨begun, made, busy, -⟩ | ⟨e, made, -⟩
  · obtain ⟨made', config, opened⟩ := begin_under idle made loose
    rw [made] at run
    rw [made']
    dsimp only at run ⊢
    rw [bind_apply] at run ⊢
    rw [← config] at loosens ⊢
    rcases busy.pushAll b.transactions with ⟨full, pushed, busy'⟩ | ⟨cause, _, pushed, -⟩
    · rw [pushed] at run
      dsimp only at run
      obtain ⟨whole, opened', -⟩ := pushAll_rejected busy opened pushed
      obtain ⟨-, -, rfl, idle'⟩ := commit_under busy' opened' run loose
      obtain ⟨pushed', -, same, -⟩ := pushAll_under busy opened loosens pushed fun other opened'' => by
        rw [opened'] at opened''
        cases opened''
        exact clean
      obtain ⟨committed, same', -⟩ := commit_under busy' opened' run loose
      rw [pushed']
      exact ⟨committed, same'.trans same, idle'⟩
    · rw [pushed] at run
      cases run
  · rw [made] at run
    cases run

theorem applyBlocks_under [Observer ω] {blocks : List Block} (idle : chain.Idle total)
    (loosens : chain.config.Loosens loose) {receipts : List BlockReceipt}
    (run : blocks.mapM applyBlock chain = (.ok receipts, last)) (clean : ∀ r ∈ receipts, r.rejected = []) :
    blocks.mapM applyBlock (chain.under loose) = (.ok receipts, last.under loose) := by
  induction blocks generalizing chain receipts with
  | nil =>
    cases run
    rfl
  | cons b rest ih =>
    rw [List.mapM_cons, bind_apply] at run ⊢
    cases made : applyBlock b chain with
    | mk result mid =>
      rw [made] at run
      cases result with
      | error e => cases run
      | ok receipt =>
        dsimp only at run
        rw [bind_apply] at run
        cases others : rest.mapM applyBlock mid with
        | mk result final =>
          rw [others] at run
          cases result with
          | error e => cases run
          | ok later =>
            cases run
            rw [List.forall_mem_cons] at clean
            obtain ⟨made', config, idle'⟩ := applyBlock_under idle loosens made clean.1
            rw [← config] at loosens
            have others' := ih idle' loosens others clean.2
            rw [made']
            dsimp only
            rw [bind_apply, others']
            rfl

theorem replay_eq_ok [Observer ω] {blocks : List Block} {summary : Replay}
    (run : replay blocks chain = (.ok summary, last)) : ∃ receipts,
      blocks.mapM applyBlock chain = (.ok receipts, last) ∧
      summary.rejected = (receipts.flatMap BlockReceipt.rejected).length := by
  unfold replay at run
  rw [bind_apply] at run
  cases applied : blocks.mapM applyBlock chain with
  | mk result mid =>
    rw [applied] at run
    cases result with
    | error e => cases run
    | ok receipts =>
      dsimp only at run
      rw [bind_apply] at run
      change ((liftM mid.head : Action ω Head) >>= _) mid = _ at run
      rw [bind_apply] at run
      cases found : mid.head with
      | error e =>
        rw [found] at run
        cases run
      | ok head =>
        rw [found] at run
        cases run
        exact ⟨receipts, rfl, rfl⟩

theorem replay_under [Observer ω] {blocks : List Block} {summary : Replay} {receipts : List BlockReceipt}
    (run : replay blocks chain = (.ok summary, last))
    (applied : blocks.mapM applyBlock chain = (.ok receipts, last))
    (applied' : blocks.mapM applyBlock (chain.under loose) = (.ok receipts, last.under loose)) :
    replay blocks (chain.under loose) = (.ok summary, last.under loose) := by
  unfold replay at run ⊢
  rw [bind_apply, applied] at run
  rw [bind_apply, applied']
  dsimp only at run ⊢
  rw [bind_apply] at run ⊢
  change ((liftM last.head : Action ω Head) >>= _) last = _ at run
  change ((liftM last.head : Action ω Head) >>= _) (last.under loose) = _
  rw [bind_apply] at run ⊢
  cases found : last.head with
  | error e =>
    rw [found] at run
    cases run
  | ok head =>
    rw [found] at run
    cases run
    rfl

-- The log leads a chain with these settings, begun alike, to the same answers and the same state.
structure Repeats [Observer ω] (config : Config) (genesis : Genesis) (observers : List ω) (blocks : List Block)
    (first last : Chain ω) (summary : Replay) (fresh again : Chain ω) : Prop where
  started : start config genesis observers = .ok fresh
  replayed : replay blocks fresh = (.ok summary, again)
  -- With all that each transaction has answered, and none of them rejected.
  receipts : ∃ receipts, blocks.mapM applyBlock first = (.ok receipts, last) ∧
    blocks.mapM applyBlock fresh = (.ok receipts, again) ∧ ∀ r ∈ receipts, r.rejected = []
  state : again.db.serialize = last.db.serialize

variable {genesis : Genesis} {observers : List ω} {first : Chain ω}

theorem looser_limits_keep_history [Observer ω] (loosens : tight.Loosens loose)
    (started : start tight genesis observers = .ok first) {blocks : List Block} {summary : Replay}
    (run : replay blocks first = (.ok summary, last)) (clean : summary.rejected = 0) :
    ∃ fresh again : Chain ω, Repeats loose genesis observers blocks first last summary fresh again := by
  obtain ⟨standing, level, closed, -⟩ := start_eq_ok started
  obtain ⟨populated, same⟩ := start_applies started
  have idle : first.Idle genesis.granted := ⟨closed, level, standing⟩
  have config : first.config = tight := by rw [same]
  rw [← config] at loosens
  obtain ⟨receipts, applied, counted⟩ := replay_eq_ok run
  have none : ∀ r ∈ receipts, r.rejected = [] := by
    rw [clean] at counted
    exact List.flatMap_eq_nil_iff.mp (List.length_eq_zero_iff.mp counted.symm)
  have applied' := applyBlocks_under idle loosens applied none
  refine ⟨first.under loose, last.under loose, ?_, replay_under run applied applied',
    ⟨receipts, applied, applied', none⟩, rfl⟩
  unfold start
  rw [populated, same]
  rfl

def cramped : Config := ⟨.wholeBlock, true, 3, 2⟩

def strict : Chain Watcher := ⟨(funded.apply empty.registerAll).2, cramped, [.idle], none, none⟩

def inviteBob : Operation := .addParticipant ⟨.core 500000, ⟨2⟩, ⟨0⟩, ⟨3⟩, "k1", .empty⟩

def twoDays : List Block :=
  [⟨1, ⟨7⟩, [(Transaction.single openDen).signedBy ⟨2⟩]⟩, ⟨2, ⟨9⟩, [(Transaction.single inviteBob).signedBy ⟨2⟩]⟩]

theorem looser_limits_keep_history_days :
    cramped.Loosens .permissive ∧ start cramped funded [Watcher.idle] = .ok strict ∧
    ∃ (summary : Replay) (last : Chain Watcher), replay twoDays strict = (.ok summary, last) ∧
      summary.rejected = 0 ∧ last.db.count .participant = 2 ∧
      ∃ fresh again : Chain Watcher, Repeats .permissive funded [.idle] twoDays strict last summary fresh again := by
  have loosens : cramped.Loosens .permissive := ⟨by decide, by decide, by decide⟩
  have started : start cramped funded [Watcher.idle] = .ok strict := by rfl
  have clean : (replay twoDays strict).1.map Replay.rejected = .ok 0 := by decide +kernel
  have joined : (replay twoDays strict).2.db.count .participant = 2 := by decide +kernel
  cases run : replay twoDays strict with
  | mk result last =>
    rw [run] at clean joined
    cases result with
    | error e => cases clean
    | ok summary =>
      have none : summary.rejected = 0 := Except.ok.inj clean
      exact ⟨loosens, started, summary, last, rfl, none, joined, looser_limits_keep_history loosens started run none⟩

end Chain

end RoomLedger
