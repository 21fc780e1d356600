import RoomLedger.Proofs.SessionStack

namespace RoomLedger.Tracked

variable {α : Type} [Stored α] {t u : Tracked α} {saved : List (Tracked α)}

-- Calls on one table, whatever type its records are of: the type owes nothing but to keep a number
-- that a record is given.
inductive Call (α : Type) where
  | create (fill : α → α)
  | modify (number : Nat) (change : α → α)
  | remove (number : Nat)
  | push
  | commit
  | undo

def Call.attempt : Call α → Tracked α → Except TableFault (Tracked α)
  | create fill, t => (·.2) <$> t.create fill
  | modify number change, t => t.modify number change
  | remove number, t => (·.2) <$> t.remove number
  | push, t => .ok t.push
  | commit, t => .ok t.commit
  | undo, t => t.undo

def Call.run (call : Call α) (t : Tracked α) : Tracked α :=
  match call.attempt t with
  | .ok after => after
  | .error _ => t

def runAll (calls : List (Call α)) (t : Tracked α) : Tracked α := calls.foldl (fun t call => call.run t) t

-- The tables in which the open sessions began, innermost first.
inductive Recalls : Tracked α → List (Tracked α) → Prop where
  | outside {t : Tracked α} (sound : t.table.Sound) (closed : t.deltas = []) : Recalls t []
  | session {base t : Tracked α} {saved : List (Tracked α)} (earlier : Recalls base saved)
      (continues : base.push.Continues t) : Recalls t (base :: saved)

theorem Recalls.sound (recalls : t.Recalls saved) : t.table.Sound := by
  cases recalls with
  | outside sound _ => exact sound
  | session _ continues => exact continues.sound

theorem Recalls.continues (recalls : t.Recalls saved) (continues : t.Continues u) : u.Recalls saved := by
  cases recalls with
  | outside _ closed =>
    refine .outside continues.sound (List.eq_nil_of_length_eq_zero ?_)
    rw [continues.length, closed, List.length_nil]
  | session earlier begun => exact .session earlier (begun.trans continues)

-- A table that joins while sessions are open is empty in all of them.
def joined : Nat → List (Tracked α)
  | 0 => []
  | depth + 1 => empty depth :: joined depth

theorem empty_recalls (depth : Nat) : (empty depth : Tracked α).Recalls (joined depth) := by
  induction depth with
  | zero => exact .outside Table.empty_sound rfl
  | succ depth ih => exact .session ih (.refl Table.empty_sound)

theorem Recalls.edited (recalls : t.Recalls saved) {call : Call α}
    (continues : ∀ u, call.attempt t = .ok u → t.Continues u) : (call.run t).Recalls saved := by
  unfold Call.run
  split
  · rename_i after made
    exact recalls.continues (continues after made)
  · exact recalls

theorem create_attempt (sound : t.table.Sound) {fill : α → α} (made : (Call.create fill).attempt t = .ok u) :
    t.Continues u := by
  simp only [Call.attempt, Tracked.create] at made
  cases created : t.table.create fill with
  | error fault => rw [created] at made; cases made
  | ok result =>
    rw [created] at made
    cases made
    exact create_continues sound created

theorem modify_attempt (sound : t.table.Sound) {number : Nat} {change : α → α}
    (made : (Call.modify number change).attempt t = .ok u) : t.Continues u := by
  simp only [Call.attempt, Tracked.modify] at made
  cases modified : t.table.modify number change with
  | error fault => rw [modified] at made; cases made
  | ok result =>
    rw [modified] at made
    cases made
    exact modify_continues sound modified

theorem remove_attempt (sound : t.table.Sound) {number : Nat}
    (made : (Call.remove number).attempt t = .ok u) : t.Continues u := by
  simp only [Call.attempt, Tracked.remove] at made
  cases removed : t.table.remove number with
  | error fault => rw [removed] at made; cases made
  | ok result =>
    rw [removed] at made
    cases made
    exact remove_continues sound removed

theorem commit_recalls (recalls : t.Recalls saved) : t.commit.Recalls saved.tail := by
  cases recalls with
  | outside sound closed =>
    unfold Tracked.commit
    rw [closed]
    exact .outside sound rfl
  | session earlier continues => exact earlier.continues (commit_continues earlier.sound continues)

theorem undo_recalls (recalls : t.Recalls saved) :
    t.undo = .ok (saved.headD t) ∧ (saved.headD t).Recalls saved.tail := by
  cases recalls with
  | outside sound closed => exact ⟨by unfold Tracked.undo; rw [closed]; rfl, .outside sound closed⟩
  | session earlier continues => exact ⟨undo_continues earlier.sound continues, earlier⟩

def Call.openings : Call α → Tracked α → List (Tracked α) → List (Tracked α)
  | push, t, saved => t :: saved
  | commit, _, saved | undo, _, saved => saved.tail
  | _, _, saved => saved

theorem run_recalls (recalls : t.Recalls saved) (call : Call α) :
    (call.run t).Recalls (call.openings t saved) := by
  have sound := recalls.sound
  cases call with
  | create fill => exact recalls.edited fun _ made => create_attempt sound made
  | modify number change => exact recalls.edited fun _ made => modify_attempt sound made
  | remove number => exact recalls.edited fun _ made => remove_attempt sound made
  | push => exact .session recalls (.refl sound)
  | commit => exact commit_recalls recalls
  | undo =>
    obtain ⟨undone, earlier⟩ := undo_recalls recalls
    simp only [Call.run, Call.attempt, undone]
    exact earlier

def openingsAfter : List (Call α) → Tracked α → List (Tracked α) → List (Tracked α)
  | [], _, saved => saved
  | call :: calls, t, saved => openingsAfter calls (call.run t) (call.openings t saved)

theorem runAll_recalls (calls : List (Call α)) (recalls : t.Recalls saved) :
    (runAll calls t).Recalls (openingsAfter calls t saved) := by
  induction calls generalizing t saved with
  | nil => exact recalls
  | cons call calls ih => exact ih (run_recalls recalls call)

theorem runAll_sound (calls : List (Call α)) (depth : Nat) : (runAll calls (empty depth)).table.Sound :=
  (runAll_recalls calls (empty_recalls depth)).sound

end RoomLedger.Tracked
