import RoomLedger.Proofs.SessionStack

namespace RoomLedger

variable {ε δ α β : Type} {kinds wider : List Kind} {db mid after : Database}

namespace Database

-- All that such a change does belongs to the innermost session, also what it wrote before a later
-- edit failed.
inductive Edited (kinds : List Kind) (db : Database) : Database → Prop where
  | refl : Edited kinds db db
  | create {mid : Database} (earlier : Edited kinds db mid) {k : Kind} (listed : k ∈ kinds)
      (fill : k.Row → k.Row) : Edited kinds db (create k fill mid).2
  | modify {mid : Database} (earlier : Edited kinds db mid) {k : Kind} (listed : k ∈ kinds)
      (id : ObjectId) (change : k.Row → k.Row) : Edited kinds db (modify k id change mid).2
  | remove {mid : Database} (earlier : Edited kinds db mid) {k : Kind} (listed : k ∈ kinds)
      (id : ObjectId) : Edited kinds db (remove k id mid).2

theorem Edited.trans (first : Edited kinds db mid) (second : Edited kinds mid after) :
    Edited kinds db after := by
  induction second with
  | refl => exact first
  | create _ listed fill ih => exact .create ih listed fill
  | modify _ listed id change ih => exact .modify ih listed id change
  | remove _ listed id ih => exact .remove ih listed id

theorem Edited.widen (edited : Edited kinds db after) (subset : ∀ k ∈ kinds, k ∈ wider) :
    Edited wider db after := by
  induction edited with
  | refl => exact .refl
  | create _ listed fill ih => exact .create ih (subset _ listed) fill
  | modify _ listed id change ih => exact .modify ih (subset _ listed) id change
  | remove _ listed id ih => exact .remove ih (subset _ listed) id

theorem Edited.continues (edited : Edited kinds db after) (sound : db.Sound) : db.Continues after := by
  induction edited with
  | refl => exact .refl sound
  | create _ _ fill ih => exact ih.trans (create_continues (ih.sound sound) fill)
  | modify _ _ id change ih => exact ih.trans (modify_continues (ih.sound sound) id change)
  | remove _ _ id ih => exact ih.trans (remove_continues (ih.sound sound) id)

variable {k j : Kind}

theorem create_tables (fill : k.Row → k.Row) (other : j ≠ k) :
    (create k fill db).2.tables.get j = db.tables.get j := by
  rw [create_apply]
  split
  · rfl
  · split
    · rfl
    · exact PerKind.get_set_of_ne _ other _

theorem modify_tables (id : ObjectId) (change : k.Row → k.Row) (other : j ≠ k) :
    (modify k id change db).2.tables.get j = db.tables.get j := by
  rw [modify_apply]
  split
  · rfl
  · split
    · rfl
    · split
      · rfl
      · exact PerKind.get_set_of_ne _ other _

theorem remove_tables (id : ObjectId) (other : j ≠ k) :
    (remove k id db).2.tables.get j = db.tables.get j := by
  rw [remove_apply]
  split
  · rfl
  · split
    · rfl
    · split
      · rfl
      · exact PerKind.get_set_of_ne _ other _

theorem Edited.tables (edited : Edited kinds db after) (unlisted : j ∉ kinds) :
    after.tables.get j = db.tables.get j := by
  have other : ∀ {k}, k ∈ kinds → j ≠ k := by
    intro k listed same
    obtain rfl := same
    exact unlisted listed
  induction edited with
  | refl => rfl
  | create _ listed fill ih => rw [create_tables fill (other listed), ih]
  | modify _ listed id change ih => rw [modify_tables id change (other listed), ih]
  | remove _ listed id ih => rw [remove_tables id (other listed), ih]

end Database

namespace Change

open Database

variable {change : Change ε α}

def Edits (kinds : List Kind) (change : Change ε α) : Prop :=
  ∀ db : Database, Edited kinds db (change db).2

theorem Edits.edited (edits : change.Edits kinds) {answer : Except ε α} {db after : Database}
    (run : change db = (answer, after)) : Edited kinds db after := by
  have edited := edits db
  rwa [run] at edited

theorem edits_of_eq (same : ∀ db : Database, (change db).2 = db) : change.Edits kinds := by
  intro db
  rw [same]
  exact .refl

theorem pure_edits (a : α) : Edits kinds (pure a : Change ε α) := edits_of_eq fun _ => rfl

theorem throw_edits (e : ε) : Edits kinds (throw e : Change ε α) := edits_of_eq fun _ => rfl

theorem create_edits {k : Kind} (listed : k ∈ kinds) (fill : k.Row → k.Row) :
    Edits kinds (create k fill) := fun _ => .create .refl listed fill

theorem modify_edits {k : Kind} (listed : k ∈ kinds) (id : ObjectId) (change : k.Row → k.Row) :
    Edits kinds (modify k id change) := fun _ => .modify .refl listed id change

theorem remove_edits {k : Kind} (listed : k ∈ kinds) (id : ObjectId) :
    Edits kinds (remove k id) := fun _ => .remove .refl listed id

theorem bind_edits {next : α → Change ε β} (first : change.Edits kinds)
    (later : ∀ a, (next a).Edits kinds) : (change >>= next).Edits kinds := by
  intro db
  rw [bind_apply]
  have early := first db
  cases made : change db with
  | mk result mid =>
    rw [made] at early
    cases result with
    | error e => exact early
    | ok a => exact early.trans (later a mid)

theorem adapt_apply (f : ε → δ) (change : Change ε α) (db : Database) :
    change.adapt f db = ((change db).1.mapError f, (change db).2) := rfl

theorem adapt_edits (f : ε → δ) (edits : change.Edits kinds) : Edits kinds (change.adapt f) := edits

theorem forM_edits {act : α → Change ε PUnit} (each : ∀ a, (act a).Edits kinds) (list : List α) :
    Edits kinds (list.forM act) := by
  induction list with
  | nil => exact pure_edits _
  | cons a rest ih => exact bind_edits (each a) fun _ => ih

theorem foldlM_edits {step : β → α → Change ε β} (each : ∀ b a, (step b a).Edits kinds)
    (list : List α) (b : β) : (list.foldlM step b).Edits kinds := by
  induction list generalizing b with
  | nil => exact pure_edits b
  | cons a rest ih =>
    rw [List.foldlM_cons]
    exact bind_edits (each b a) ih

theorem mapM_edits {act : α → Change ε β} (each : ∀ a, (act a).Edits kinds) (list : List α) :
    Edits kinds (list.mapM act) := by
  induction list with
  | nil => exact pure_edits _
  | cons a rest ih =>
    rw [List.mapM_cons]
    exact bind_edits (each a) fun _ => bind_edits ih fun _ => pure_edits _

end Change

end RoomLedger
