import RoomLedger.Proofs.FailureTraces
import RoomLedger.Proofs.RuleSteps

namespace RoomLedger

variable {ε α β : Type}

namespace Change

-- Wherever the narrow change succeeds the wide one does, with the same answer and the same writes.
def Covers (wide narrow : Change ε α) : Prop :=
  ∀ db a after, narrow db = (.ok a, after) → wide db = (.ok a, after)

theorem Covers.refl (change : Change ε α) : change.Covers change := fun _ _ _ run => run

theorem Covers.bind {wide narrow : Change ε α} {next next' : α → Change ε β} (first : wide.Covers narrow)
    (later : ∀ a, (next a).Covers (next' a)) : (wide >>= next).Covers (narrow >>= next') := by
  intro db b after run
  obtain ⟨a, mid, made, rest⟩ := bind_eq_ok run
  rw [bind_apply, first db a mid made]
  exact later a mid b after rest

theorem Covers.foldlM {wide narrow : β → α → Change ε β} (each : ∀ b a, (wide b a).Covers (narrow b a))
    (list : List α) (b : β) : Covers (list.foldlM wide b) (list.foldlM narrow b) := by
  induction list generalizing b with
  | nil => exact .refl _
  | cons a rest ih =>
    rw [List.foldlM_cons, List.foldlM_cons]
    exact (each b a).bind ih

theorem Covers.nested {wide narrow : Change ChainError α} (covers : wide.Covers narrow) :
    Covers (nested wide) (nested narrow) := by
  intro db a after run
  unfold RoomLedger.nested at run ⊢
  cases made : narrow db.push with
  | mk result mid =>
    rw [made] at run
    cases result with
    | ok b =>
      rw [covers _ _ _ made]
      exact run
    | error cause =>
      dsimp only at run
      split at run <;> cases run

end Change

variable {c : Context} {time : Timestamp}

def Context.findPayer (c : Context) (offered : Funds) (payer : AccountId) : Except Refusal AccountId := do
  if offered.asset ≠ coreAsset then .error (.feeNotCore offered.asset)
  if offered.amount < c.fee then .error (.insufficientFee c.fee offered.amount)
  let payer ← c.get payer
  if 0 < c.fee then c.requireHolding payer.id coreAsset c.fee
  return payer.id

namespace Operation

theorem approve_eq (op : Operation) (c : Context) : op.approve c =
    (c.findPayer op.fee op.payer >>= fun payer => op.examine c >>= fun plan => .ok ⟨payer, plan⟩) := by
  unfold approve Context.findPayer
  by_cases foreign : op.fee.asset ≠ coreAsset
  · simp only [if_pos foreign]
    rfl
  by_cases little : op.fee.amount < c.fee
  · simp only [if_neg foreign, if_pos little]
    rfl
  simp only [if_neg foreign, if_neg little]
  cases c.get op.payer with
  | error refusal => rfl
  | ok payer =>
    by_cases charged : 0 < c.fee
    · simp only [bind, Except.bind, if_pos charged]
      cases c.requireHolding payer.id coreAsset c.fee <;> rfl
    · simp only [bind, Except.bind, if_neg charged]
      rfl

theorem approve_eq_ok_iff {op : Operation} {approval : op.Approval} : op.approve c = .ok approval ↔
    c.findPayer op.fee op.payer = .ok approval.payer ∧ op.examine c = .ok approval.plan := by
  rw [approve_eq]
  constructor
  · intro approved
    obtain ⟨payer, found, rest⟩ := exists_of_bind_eq_ok approved
    obtain ⟨plan, examined, made⟩ := exists_of_bind_eq_ok rest
    cases made
    exact ⟨found, examined⟩
  · intro given
    rw [given.1, given.2]
    rfl

-- An operation that is accepted wherever another is, and settled in the same way.
theorem covers_of_accepted {op op' : Operation} {config config' : Config} {results results' : List Outcome}
    (fee : ∀ schedule, op'.scheduledFee schedule = op.scheduledFee schedule)
    (accepted : ∀ (db : Database) (fee : Shares) (approval : op.Approval), op.validate = .ok () →
      op.approve ⟨db, config, time, fee, results⟩ = .ok approval →
      op'.validate = .ok () ∧ ∃ approval' : op'.Approval,
        op'.approve ⟨db, config', time, fee, results'⟩ = .ok approval' ∧
          op'.settle time fee (some approval') = op.settle time fee (some approval)) :
    (op'.perform config' time results').Covers (op.perform config time results) := by
  intro db outcome after run
  obtain ⟨validated, globals, approval, found, approved, run⟩ := perform_eq_ok_iff.mp run
  obtain ⟨validated', approval', approved', settled⟩ := accepted db _ approval validated approved
  refine perform_eq_ok_iff.mpr ⟨validated', globals, approval', found, ?_, ?_⟩
  · rw [fee]
    exact approved'
  · rw [fee, settled]
    exact run

end Operation

end RoomLedger
