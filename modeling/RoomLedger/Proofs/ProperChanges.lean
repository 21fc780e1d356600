import RoomLedger.Proofs.ContentReads
import RoomLedger.Proofs.FailureTraces
import RoomLedger.Proofs.GenesisState

namespace RoomLedger

open Database

variable {α β : Type} {db mid after : Database} {total : Int}

namespace Database

theorem Standing.congr (standing : db.Standing total) (sound : after.Sound)
    (same : after.contents = db.contents) : after.Standing total := by
  have rows : ∀ k n, after.row? k n = db.row? k n := fun k n => by
    rw [row?_eq_contents, row?_eq_contents, same]
  have complete : after.Complete := by
    intro k
    have there := standing.grounded.complete k
    have held := congrArg (fun contents : Contents => (contents.get k).isSome) same
    simp only [get_contents, Option.isSome_map] at held
    rwa [held]
  refine ⟨⟨sound, complete, ?_⟩, ?_, ?_, ?_⟩
  · intro n p present
    rw [rows] at present
    rw [next_eq_contents, same, ← next_eq_contents]
    exact standing.grounded.housed n p present
  · exact standing.backed.congr standing.grounded.complete complete (rows _) (rows _) (rows _)
  · simp only [rows]
    exact standing.globals
  · simp only [rows]
    exact standing.head

theorem Standing.push (standing : db.Standing total) : db.push.Standing total :=
  standing.congr (push_sound standing.grounded.sound) (contents_push db)

theorem Standing.commit (standing : mid.Standing total) (run : commit mid = (.ok (), after))
    (sound : after.Sound) : after.Standing total := by
  apply standing.congr sound
  rw [← contents_commit mid, run]

-- The records that every operation relies on are not among those that operations edit.
theorem Standing.edited {kinds : List Kind} (standing : db.Standing total) (edited : Edited kinds db after)
    (globals : .globals ∉ kinds) (head : .head ∉ kinds) (grounded : after.Grounded)
    (backed : after.Backed total 0) : after.Standing total := by
  refine ⟨grounded, backed, ?_, ?_⟩
  · simp only [row?_congr (edited.tables globals)]
    exact standing.globals
  · simp only [row?_congr (edited.tables head)]
    exact standing.head

end Database

namespace Operation

theorem anchors_not_mem_written (k : OperationKind) :
    .globals ∉ k.written ++ [.balance, .supply] ∧ .head ∉ k.written ++ [.balance, .supply] := by
  cases k <;> decide

theorem settle_standing {op : Operation} {c : Context} (standing : c.db.Standing total)
    (nonneg : 0 ≤ c.fee.toInt) (validated : op.validate = .ok ()) {approval : op.Approval}
    (approved : op.approve c = .ok approval) (time : Timestamp) :
    (op.settle time c.fee (some approval)).Ends c.db fun _ after => after.Standing total := by
  obtain ⟨globals, head⟩ := anchors_not_mem_written op.kind
  refine ((settle_ends standing.grounded standing.backed nonneg validated approved time).edited
    (settle_edits op time c.fee _)).weaken ?_
  intro _ after given
  obtain ⟨⟨grounded, backed⟩, edited⟩ := given
  exact standing.edited edited globals head grounded backed

end Operation

namespace Change

-- On a standing database the change is refused or leaves it standing.
structure Proper (total : Int) (change : Change ChainError α) : Prop where
  continuing : change.Continuing
  ends : ∀ db : Database, db.Standing total →
    (∃ cause mid, change db = (.error (.refused cause), mid)) ∨
      ∃ a after, change db = (.ok a, after) ∧ after.Standing total

theorem pure_proper (a : α) : Proper total (pure a : Change ChainError α) :=
  ⟨pure_continuing a, fun db standing => .inr ⟨a, db, rfl, standing⟩⟩

theorem Proper.bind {change : Change ChainError α} {next : α → Change ChainError β}
    (first : change.Proper total) (later : ∀ a, (next a).Proper total) : (change >>= next).Proper total := by
  refine ⟨bind_continuing first.continuing fun a => (later a).continuing, ?_⟩
  intro db standing
  rw [bind_apply]
  rcases first.ends db standing with ⟨cause, mid, run⟩ | ⟨a, mid, run, standing⟩
  · rw [run]
    exact .inl ⟨cause, mid, rfl⟩
  · rw [run]
    exact (later a).ends mid standing

theorem foldlM_proper {step : β → α → Change ChainError β} (each : ∀ b a, (step b a).Proper total)
    (list : List α) (b : β) : (list.foldlM step b).Proper total := by
  induction list generalizing b with
  | nil => exact pure_proper b
  | cons a rest ih =>
    rw [List.foldlM_cons]
    exact (each b a).bind ih

-- In a session of its own, a change that is refused has not been made at all.
theorem Proper.nested_cases {change : Change ChainError α} (proper : change.Proper total)
    (standing : db.Standing total) :
    (∃ cause, nested change db = (.error (.refused cause), db)) ∨
      ∃ a after, nested change db = (.ok a, after) ∧ db.Continues after ∧ after.Standing total := by
  have sound := standing.grounded.sound
  rcases RoomLedger.nested_cases proper.continuing sound with
    ⟨a, mid, after, run, _, committed, whole, kept⟩ | ⟨e, mid, run, whole⟩
  · refine .inr ⟨a, after, whole, kept, ?_⟩
    rcases proper.ends db.push standing.push with ⟨cause, last, other⟩ | ⟨b, last, other, left⟩
    · rw [run] at other
      cases other
    · rw [run] at other
      cases other
      exact left.commit committed (kept.sound sound)
  · refine .inl ?_
    rcases proper.ends db.push standing.push with ⟨cause, last, other⟩ | ⟨b, last, other, _⟩
    · rw [run] at other
      cases other
      exact ⟨cause, whole⟩
    · rw [run] at other
      cases other

theorem Proper.nested {change : Change ChainError α} (proper : change.Proper total) :
    (nested change).Proper total := by
  refine ⟨nested_continuing proper.continuing, ?_⟩
  intro db standing
  rcases proper.nested_cases standing with ⟨cause, run⟩ | ⟨a, after, run, _, left⟩
  · exact .inl ⟨cause, db, run⟩
  · exact .inr ⟨a, after, run, left⟩

end Change

theorem Operation.perform_proper (op : Operation) (config : Config) (time : Timestamp)
    (results : List Outcome) : (op.perform config time results).Proper total := by
  refine ⟨op.perform_continuing config time results, ?_⟩
  intro db standing
  obtain ⟨globals, stored⟩ := standing.globals
  have found : db.get .globals (⟨0⟩ : GlobalsId).id = .ok globals := get_of_row? stored
  unfold perform
  rw [found]
  cases validated : op.validate with
  | error defect => exact .inl ⟨.malformed defect, db, rfl⟩
  | ok _ =>
    dsimp only
    split
    · rename_i refusal _
      exact .inl ⟨refusal, db, rfl⟩
    · rename_i approval approved
      have ends := settle_standing (c := ⟨db, config, time, _, results⟩) standing
        (scheduledFee_nonneg op _) validated approved time
      obtain ⟨outcome, after, run, left⟩ := ends.adapt ChainError.breached
      exact .inr ⟨outcome, after, run, left⟩

namespace Transaction

theorem performNext_proper (config : Config) (time : Timestamp) (results : List Outcome) (op : Operation) :
    (performNext config time results op).Proper total :=
  (op.perform_proper config time results).nested.bind fun _ => Change.pure_proper _

theorem operations_proper (operations : List Operation) (config : Config) (time : Timestamp) :
    Change.Proper total (operations.foldlM (performNext config time) []) :=
  Change.foldlM_proper (performNext_proper config time) operations []

end Transaction

end RoomLedger
