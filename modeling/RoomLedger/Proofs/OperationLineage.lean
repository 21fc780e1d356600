import RoomLedger.Proofs.BlockHistory

namespace RoomLedger

open Database Change

-- Of all that was tried, the receipts keep what was applied: an operation that has been performed,
-- and the databases before and after it.
structure Deed where
  before : Database
  operation : Operation
  outcome : Outcome
  after : Database

-- Between two operations sessions are opened and closed, and the head moves on when a block begins.
inductive Lineage (config : Config) (first : Database) : List Deed → Database → Prop where
  | nil : Lineage config first [] first
  | same {deeds : List Deed} {db after : Database} (earlier : Lineage config first deeds db) (sound : after.Sound)
      (same : ∀ k, k ≠ .head → after.contents.get k = db.contents.get k) : Lineage config first deeds after
  | perform {deeds : List Deed} {db after : Database} {op : Operation} {time : Timestamp} {results : List Outcome}
      {outcome : Outcome} (earlier : Lineage config first deeds db)
      (run : op.perform config time results db = (.ok outcome, after)) :
      Lineage config first (deeds ++ [⟨db, op, outcome, after⟩]) after

namespace Lineage

variable {config : Config} {first db after : Database} {deeds : List Deed} {time : Timestamp}

theorem sound (lineage : Lineage config first deeds db) (founded : first.Sound) : db.Sound := by
  induction lineage with
  | nil => exact founded
  | same _ sound _ _ => exact sound
  | perform _ run ih =>
    obtain ⟨fee, performed⟩ := Operation.perform_eq_ok run
    exact performed.sound ih

-- A session that is kept is as good as none.
theorem nested {α : Type} {change : Change ChainError α} {a : α} (continuing : change.Continuing)
    (lineage : Lineage config first deeds db) (sound : db.Sound)
    (run : RoomLedger.nested change db = (.ok a, after)) :
    ∃ mid, change db.push = (.ok a, mid) ∧ Lineage config first deeds db.push ∧
      ∀ more, Lineage config first (deeds ++ more) mid → Lineage config first (deeds ++ more) after := by
  rcases nested_cases continuing sound with ⟨b, mid, last, made, -, committed, whole, kept⟩ | ⟨e, mid, made, whole⟩
  · rw [run] at whole
    cases whole
    refine ⟨mid, made, lineage.same (push_sound sound) fun k _ => by rw [contents_push], fun more inside => ?_⟩
    exact inside.same (kept.sound sound) fun k _ => by rw [← contents_commit mid, committed]
  · rw [run] at whole
    cases whole

theorem operation {op : Operation} {results : List Outcome} {outcome : Outcome}
    (lineage : Lineage config first deeds db) (sound : db.Sound)
    (run : RoomLedger.nested (op.perform config time results) db = (.ok outcome, after)) :
    ∃ d : Deed, Lineage config first (deeds ++ [d]) after ∧ d.operation = op ∧ d.outcome = outcome := by
  obtain ⟨mid, made, opened, closes⟩ := lineage.nested (op.perform_continuing config time results) sound run
  exact ⟨⟨db.push, op, outcome, mid⟩, closes _ (opened.perform made), rfl, rfl⟩

theorem operations {ops : List Operation} {results answers : List Outcome}
    (lineage : Lineage config first deeds db) (founded : first.Sound)
    (run : ops.foldlM (Transaction.performNext config time) results db = (.ok answers, after)) :
    ∃ more : List Deed, Lineage config first (deeds ++ more) after ∧ more.map Deed.operation = ops ∧
      answers = results ++ more.map Deed.outcome := by
  induction ops generalizing deeds db results with
  | nil =>
    cases run
    exact ⟨[], by rwa [List.append_nil], rfl, (List.append_nil _).symm⟩
  | cons op rest ih =>
    rw [List.foldlM_cons] at run
    obtain ⟨_, mid, one, run⟩ := bind_eq_ok run
    obtain ⟨outcome, _, performed, left⟩ := bind_eq_ok one
    cases left
    obtain ⟨d, here, rfl, rfl⟩ := lineage.operation (lineage.sound founded) performed
    obtain ⟨more, there, rfl, rfl⟩ := ih here run
    refine ⟨d :: more, ?_, rfl, ?_⟩
    · rwa [List.append_cons]
    · rw [List.map_cons, List.append_assoc, List.singleton_append]

theorem transaction {t : Transaction} {answers : List Outcome} (lineage : Lineage config first deeds db)
    (founded : first.Sound) (run : t.perform config time db = (.ok answers, after)) :
    ∃ more : List Deed, Lineage config first (deeds ++ more) after ∧ more.map Deed.operation = t.operations ∧
      more.map Deed.outcome = answers := by
  obtain ⟨mid, made, opened, closes⟩ :=
    lineage.nested (t.operations_continuing config time) (lineage.sound founded) run
  obtain ⟨more, inside, operations, rfl⟩ := opened.operations founded made
  exact ⟨more, closes more inside, operations, rfl⟩

end Lineage

def Deed.entry (d : Deed) : Operation × Outcome := (d.operation, d.outcome)

theorem BlockReceipt.operations_append (r : BlockReceipt) (t : TransactionReceipt) :
    ({ r with applied := r.applied ++ [t] } : BlockReceipt).operations =
      r.operations ++ t.transaction.operations.zip t.results := by
  simp [BlockReceipt.operations]

namespace Chain

variable {ω : Type} {config : Config} {first last : Chain ω} {genesis : Genesis} {observers : List ω}
  {history : List BlockReceipt} {total : Int}

def receipts (c : Chain ω) (history : List BlockReceipt) : List BlockReceipt :=
  history ++ (c.openBlock.map OpenBlock.receipt).toList

def receipted (config : Config) (first : Database) (receipts : List BlockReceipt) (db : Database) : Prop :=
  ∃ deeds, Lineage config first deeds db ∧ deeds.map Deed.entry = receipts.flatMap BlockReceipt.operations

def traced (config : Config) (first : Database) : Chronicle where
  settled history db := receipted config first history db
  pending history block db := receipted config first (history ++ [block.receipt]) db

theorem traced_carriedOn {first : Database} (founded : first.Sound) :
    (traced config first).CarriedOn total config := by
  -- Only operations and transactions add deeds; the other steps change no contents but the head.
  refine ⟨?_, ?_, ?_, ?_, ?_⟩
  · rintro history db after number time standing - ⟨deeds, lineage, told⟩ - advanced
    have sound := standing.grounded.sound
    obtain ⟨head, -, puts, -⟩ := modify_eq_ok (push_sound sound) advanced
    refine ⟨deeds, lineage.same (puts.continues.sound (push_sound sound)) fun k other => ?_, ?_⟩
    · rw [contents_congr (puts.others k other), contents_push]
    · rw [told, List.flatMap_append]
      exact (List.append_nil _).symm
  · rintro history block db after op outcome standing ⟨deeds, lineage, told⟩ run
    obtain ⟨d, lineage, rfl, rfl⟩ := lineage.operation standing.grounded.sound run
    refine ⟨_, lineage, ?_⟩
    rw [List.flatMap_append] at told ⊢
    simp only [OpenBlock.record, List.flatMap_singleton, BlockReceipt.operations_append, List.map_append, told,
      List.append_assoc]
    rfl
  · rintro history block db after t results standing ⟨deeds, lineage, told⟩ - run
    obtain ⟨more, lineage, operations, rfl⟩ := lineage.transaction founded run
    refine ⟨_, lineage, ?_⟩
    rw [List.flatMap_append] at told ⊢
    simp only [OpenBlock.record, List.flatMap_singleton, BlockReceipt.operations_append, List.map_append, told,
      List.append_assoc, ← operations, List.zip_map']
    rfl
  · rintro history block db t cause ⟨deeds, lineage, told⟩
    refine ⟨deeds, lineage, ?_⟩
    rw [told, List.flatMap_append, List.flatMap_append]
    rfl
  · rintro history block db after - ⟨deeds, lineage, told⟩ run sound
    exact ⟨deeds, lineage.same sound fun k _ => by rw [← contents_commit db, run], told⟩

theorem lineage_of_commits [Observer ω] (started : start config genesis observers = .ok first)
    (commits : Commits first history last) : receipted config first.db (last.receipts history) last.db := by
  obtain ⟨standing, level, closed, -⟩ := start_eq_ok started
  have fixed : first.config = config := congrArg Chain.config (start_applies started).2
  have carried : (traced config first.db).CarriedOn genesis.granted config :=
    traced_carriedOn standing.grounded.sound
  have truth := Chronicle.IsTrue.commits carried (.idle ⟨⟨closed, level, standing⟩, fixed, [], .nil, rfl⟩)
    commits
  unfold receipts
  cases truth with
  | idle idle =>
    rw [idle.idle.closed, Option.map_none, Option.toList_none, List.append_nil]
    exact idle.settled
  | busy busy =>
    obtain ⟨block, opened, pending⟩ := busy.pending
    rw [opened]
    exact pending

end Chain

end RoomLedger
