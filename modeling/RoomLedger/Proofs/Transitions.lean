import RoomLedger.Proofs.ProperChanges
import RoomLedger.Proofs.RuleSteps

namespace RoomLedger

open Database

variable {α β : Type} {db mid after : Database} {total : Int} {config : Config} {time : Timestamp}
  {related : Database → Database → Prop}

-- A relation that chains, and that sessions do not matter to, holds of a transaction if it holds of
-- its operations.
structure Transition (related : Database → Database → Prop) : Prop where
  same : ∀ db after : Database, db.Sound → after.Sound → after.contents = db.contents → related db after
  trans : ∀ db mid after : Database, related db mid → related mid after → related db after

theorem Transition.of_kept {holds : Database → Prop}
    (same : ∀ db after : Database, db.Sound → after.Sound → after.contents = db.contents → holds db → holds after) :
    Transition fun db after => holds db → holds after :=
  ⟨same, fun _ _ _ first second given => second (first given)⟩

namespace Change

-- On a standing database the change is refused, or it leaves a standing one that is related to it.
structure Leads (total : Int) (related : Database → Database → Prop) (change : Change ChainError α) : Prop where
  proper : change.Proper total
  leads : ∀ (db : Database) a after, db.Standing total → change db = (.ok a, after) → related db after

variable {change : Change ChainError α}

theorem Proper.standing (proper : change.Proper total) (standing : db.Standing total) {a : α}
    (run : change db = (.ok a, after)) : after.Standing total := by
  rcases proper.ends db standing with ⟨cause, last, other⟩ | ⟨b, last, other, left⟩
  · rw [run] at other
    cases other
  · rw [run] at other
    cases other
    exact left

theorem pure_leads (transition : Transition related) (a : α) :
    Leads total related (pure a : Change ChainError α) := by
  refine ⟨pure_proper a, ?_⟩
  intro db b after standing run
  cases run
  exact transition.same _ _ standing.grounded.sound standing.grounded.sound rfl

theorem Leads.bind (transition : Transition related) {next : α → Change ChainError β}
    (first : change.Leads total related) (later : ∀ a, (next a).Leads total related) :
    (change >>= next).Leads total related := by
  refine ⟨first.proper.bind fun a => (later a).proper, ?_⟩
  intro db b after standing run
  obtain ⟨a, mid, one, two⟩ := bind_eq_ok run
  exact transition.trans db mid after (first.leads db a mid standing one)
    ((later a).leads mid b after (first.proper.standing standing one) two)

theorem foldlM_leads (transition : Transition related) {step : β → α → Change ChainError β} (list : List α)
    (each : ∀ b, ∀ a ∈ list, (step b a).Leads total related) (b : β) :
    (list.foldlM step b).Leads total related := by
  induction list generalizing b with
  | nil => exact pure_leads transition b
  | cons a rest ih =>
    obtain ⟨first, later⟩ := List.forall_mem_cons.mp fun a member b => each b a member
    rw [List.foldlM_cons]
    exact (first b).bind transition (ih fun b a member => later a member b)

theorem Leads.nested (transition : Transition related) (leads : change.Leads total related) :
    (nested change).Leads total related := by
  refine ⟨leads.proper.nested, ?_⟩
  intro db a after standing run
  have sound := standing.grounded.sound
  rcases RoomLedger.nested_cases leads.proper.continuing sound with
    ⟨b, mid, last, made, _, committed, whole, kept⟩ | ⟨e, mid, made, whole⟩
  · rw [run] at whole
    cases whole
    have left := leads.proper.standing standing.push made
    have same : after.contents = mid.contents := by rw [← contents_commit mid, committed]
    refine transition.trans db db.push after ?_ (transition.trans db.push mid after ?_ ?_)
    · exact transition.same _ _ sound (push_sound sound) (contents_push db)
    · exact leads.leads _ _ _ standing.push made
    · exact transition.same _ _ left.grounded.sound (kept.sound sound) same
  · rw [run] at whole
    cases whole

end Change

namespace Operation

theorem perform_leads {op : Operation} (each : ∀ (db : Database) fee results outcome after, db.Standing total →
      op.Performed ⟨db, config, time, fee, results⟩ outcome after → related db after) (results : List Outcome) :
    (op.perform config time results).Leads total related := by
  refine ⟨op.perform_proper config time results, ?_⟩
  intro db outcome after standing run
  obtain ⟨fee, performed⟩ := perform_eq_ok run
  exact each db fee results outcome after standing performed

end Operation

namespace Transaction

theorem perform_leads (transition : Transition related) {t : Transaction}
    (each : ∀ op ∈ t.operations, ∀ results, (op.perform config time results).Leads total related) :
    (t.perform config time).Leads total related := by
  refine (Change.foldlM_leads transition t.operations (fun results op member => ?_) []).nested transition
  exact ((each op member results).nested transition).bind transition fun _ => Change.pure_leads transition _

end Transaction

end RoomLedger
