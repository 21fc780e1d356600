import RoomLedger.Proofs.ChainRuns

namespace RoomLedger.Chain

open Database

variable {ω : Type} {first last : Chain ω}

-- Wherever a run has come to: what is approved settles, and every error has been a refusal, unless an
-- observer failed and so stopped the chain.
theorem approved_operations_settle [Observer ω] {config : Config} {genesis : Genesis} {observers : List ω}
    {answers : List (Except ChainError Unit)} (started : start config genesis observers = .ok first)
    (run : Run first answers last) :
    (∀ time db results op globals approval, last.Examined time db results →
      last.Approved time db results op globals approval →
        ∃ outcome after, op.settle time (op.scheduledFee globals.parameters.fees) (some approval) db =
          (.ok outcome, after)) ∧
    ((∀ observer event reason, .error (.notification observer event reason) ∉ answers) →
      last.halted = none ∧ ∀ e, .error e ∈ answers → ∃ cause, e = .refused cause) ∧
    (∀ before e later, answers = before ++ .error e :: later →
      (∃ cause, e = .refused cause) ∨ Failed ω e ∨
        ∃ reason, e = .halted reason ∧ ∃ first, Failed ω first ∧ .error first ∈ before) := by
  obtain ⟨steady, running⟩ := start_steady started
  obtain ⟨stops, ends⟩ := run_answers steady running run
  refine ⟨?_, ?_, ends⟩
  · intro time db results op globals approval examined approved
    exact approved.settles (examined.standing (run_steady steady run))
  · intro silent
    have unfailed : ∀ e, Failed ω e → .error e ∉ answers := by
      intro e given
      obtain ⟨_, _, _, _, _, rfl⟩ := given
      exact silent _ _ _
    refine ⟨?_, fun e answered => ?_⟩
    · cases stopped : last.halted with
      | none => rfl
      | some reason =>
        obtain ⟨e, failed, answered⟩ := stops (by rw [stopped]; rfl)
        exact absurd answered (unfailed e failed)
    · obtain ⟨before, later, split⟩ := List.append_of_mem answered
      rcases ends before e later split with refused | failed | ⟨_, _, other, failed, earlier⟩
      · exact refused
      · exact absurd answered (unfailed e failed)
      · exact absurd (split ▸ List.mem_append_left _ earlier) (unfailed other failed)

def funded : Genesis := .ofAccounts ⟨0⟩ [⟨"alice", 1000000000⟩, ⟨"bob", 0⟩]

def founded : Chain Watcher := ⟨(funded.apply empty.registerAll).2, .permissive, [.idle], none, none⟩

def begun : Chain Watcher := (beginBlock 1 ⟨7⟩ founded).2

def pay : Operation := .transfer ⟨.core 2000000, ⟨2⟩, ⟨3⟩, .core 5, none⟩

def rules : Globals := { id := ⟨0⟩, parameters := ⟨.standard⟩ }

theorem founded_started : start .permissive funded [Watcher.idle] = .ok founded := by rfl

theorem begun_run : Run founded [.ok ()] begun := .call .nil (.begin 1 ⟨7⟩) (by rfl)

theorem pay_approved : begun.Approved ⟨7⟩ begun.db.push [] pay rules ⟨⟨2⟩, ()⟩ :=
  ⟨by rfl, by rfl, by rfl⟩

theorem approved_operations_settle_first :
    start .permissive funded [Watcher.idle] = .ok founded ∧ Run founded [.ok ()] begun ∧
    begun.Approved ⟨7⟩ begun.db.push [] pay rules ⟨⟨2⟩, ()⟩ ∧
    (∃ outcome after, pay.settle ⟨7⟩ (pay.scheduledFee rules.parameters.fees) (some ⟨⟨2⟩, ()⟩)
      begun.db.push = (.ok outcome, after)) ∧ begun.halted = none := by
  obtain ⟨settles, running, -⟩ := approved_operations_settle founded_started begun_run
  refine ⟨founded_started, begun_run, pay_approved, settles _ _ _ _ _ _ .alone pay_approved, ?_⟩
  exact (running fun _ _ _ answered => by cases answered with | tail _ none => cases none).1

end RoomLedger.Chain
