import RoomLedger.Proofs.UniformChanges

namespace RoomLedger

open Database

variable {ε α β : Type}

namespace Change

def seen (change : Change ε α) (db : Database) : Except ε α × Contents := ((change db).1, (change db).2.contents)

-- What is answered, and left in the tables, depends on nothing but what the tables hold: not on how
-- often sessions have been opened, nor on what was done in those that were taken back.
structure Decided (change : Change ε α) : Prop where
  continuing : change.Continuing
  same : ∀ db other : Database, db.Sound → other.Sound → other.contents = db.contents →
    change.seen other = change.seen db

theorem Decided.of_eq {change : Change ε α} (decided : change.Decided) {db other : Database} (sound : db.Sound)
    (sound' : other.Sound) (same : other.contents = db.contents) {result : Except ε α} {after : Database}
    (run : change db = (result, after)) : ∃ last, change other = (result, last) ∧ last.contents = after.contents := by
  have seen := decided.same db other sound sound' same
  unfold Change.seen at seen
  rw [run] at seen
  obtain ⟨answers, tables⟩ := Prod.mk.inj seen
  exact ⟨(change other).2, Prod.ext answers rfl, tables⟩

theorem alike_simulation : Simulation fun db twin => twin.contents = db.contents :=
  ⟨fun _ _ same => same, fun _ _ _ fill same => (create_alike fill same).2,
    fun _ _ _ id change same => (modify_alike id change same).2, fun _ _ _ id same => (remove_alike id same).2⟩

theorem Uniform.decided {change : Change ε α} (uniform : change.Uniform) : change.Decided :=
  ⟨uniform.continuing, fun db other _ _ same =>
    Prod.ext (uniform _ alike_simulation db other same).1 (uniform _ alike_simulation db other same).2⟩

theorem bind_decided {change : Change ε α} {next : α → Change ε β} (first : change.Decided)
    (later : ∀ a, (next a).Decided) : (change >>= next).Decided := by
  refine ⟨bind_continuing first.continuing fun a => (later a).continuing, fun db other sound sound' same => ?_⟩
  have continues := first.continuing db sound
  have continues' := first.continuing other sound'
  unfold seen
  rw [bind_apply, bind_apply]
  cases made : change db with
  | mk result mid =>
    obtain ⟨last, made', same⟩ := first.of_eq sound sound' same made
    rw [made] at continues
    rw [made'] at continues' ⊢
    cases result with
    | error e => exact Prod.ext rfl same
    | ok a => exact (later a).same mid last (continues.sound sound) (continues'.sound sound') same

theorem foldlM_decided {step : β → α → Change ε β} (each : ∀ b a, (step b a).Decided) (list : List α) (b : β) :
    (list.foldlM step b).Decided := by
  induction list generalizing b with
  | nil => exact (pure_uniform b).decided
  | cons a rest ih =>
    rw [List.foldlM_cons]
    exact bind_decided (each b a) ih

theorem nested_decided {change : Change ChainError α} (decided : change.Decided) : Decided (nested change) := by
  refine ⟨nested_continuing decided.continuing, fun db other sound sound' same => ?_⟩
  have pushed : other.push.contents = db.push.contents := by rw [contents_push, contents_push, same]
  unfold seen
  rcases nested_cases decided.continuing sound with
    ⟨a, mid, after, made, _, committed, whole, _⟩ | ⟨e, mid, made, whole⟩
  · obtain ⟨last, made', left⟩ := decided.of_eq (push_sound sound) (push_sound sound') pushed made
    rcases nested_cases decided.continuing sound' with ⟨b, _, _, run, _, committed', whole', _⟩ | ⟨_, _, run, _⟩
    · rw [made'] at run
      cases run
      rw [whole, whole']
      refine Prod.ext rfl ?_
      -- Closing either session leaves what its tables hold.
      have kept := contents_commit mid
      have kept' := contents_commit last
      rw [committed] at kept
      rw [committed'] at kept'
      exact kept'.trans (left.trans kept.symm)
    · rw [made'] at run
      cases run
  · obtain ⟨last, made', -⟩ := decided.of_eq (push_sound sound) (push_sound sound') pushed made
    rcases nested_cases decided.continuing sound' with ⟨b, _, _, run, _, _, _, _⟩ | ⟨_, _, run, whole'⟩
    · rw [made'] at run
      cases run
    · rw [made'] at run
      cases run
      rw [whole, whole']
      exact Prod.ext rfl same

end Change

theorem Operation.perform_decided (op : Operation) (config : Config) (time : Timestamp) (results : List Outcome) :
    (op.perform config time results).Decided := (op.perform_uniform config time results).decided

namespace Transaction

theorem perform_decided (t : Transaction) (config : Config) (time : Timestamp) :
    (t.perform config time).Decided :=
  Change.nested_decided (Change.foldlM_decided (fun results op =>
    Change.bind_decided (Change.nested_decided (op.perform_decided config time results)) fun _ =>
      (Change.pure_uniform _).decided) t.operations [])

end Transaction

end RoomLedger
