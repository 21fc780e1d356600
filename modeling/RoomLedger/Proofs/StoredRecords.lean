import RoomLedger.Proofs.RecordEdits

namespace RoomLedger

variable {ε δ α β : Type} {db mid after : Database} {k j : Kind} {n : Nat}

namespace Database

def row? (db : Database) (k : Kind) (n : Nat) : Option k.Row :=
  (db.tables.get k).bind fun t => t.table.get? n

def next (db : Database) (k : Kind) : Nat := (db.tables.get k).elim 0 (·.table.next)

def Complete (db : Database) : Prop := ∀ k, (db.tables.get k).isSome

theorem row?_of_held {t : Tracked k.Row} (held : db.tables.get k = some t) (n : Nat) :
    db.row? k n = t.table.get? n := by
  rw [row?, held]
  rfl

theorem next_of_held {t : Tracked k.Row} (held : db.tables.get k = some t) : db.next k = t.table.next := by
  rw [next, held]
  rfl

theorem held_of_row? {row : k.Row} (stored : db.row? k n = some row) :
    ∃ t, db.tables.get k = some t ∧ t.table.get? n = some row := by
  rw [row?, Option.bind_eq_some_iff] at stored
  exact stored

theorem Sound.numbered (sound : db.Sound) {row : k.Row} (stored : db.row? k n = some row) :
    Stored.number row = n := by
  obtain ⟨t, held, found⟩ := held_of_row? stored
  exact (sound.table k t held).numbered n row found

theorem Sound.bounded (sound : db.Sound) {row : k.Row} (stored : db.row? k n = some row) :
    n < db.next k := by
  obtain ⟨t, held, found⟩ := held_of_row? stored
  rw [next_of_held held]
  exact (sound.table k t held).bounded n row found

theorem Sound.distinct (sound : db.Sound) {m n : Nat} {row other : k.Row}
    (stored : db.row? k m = some row) (beside : db.row? k n = some other)
    (collides : Table.Collides row other) : m = n := by
  obtain ⟨t, held, found⟩ := held_of_row? stored
  rw [row?_of_held held] at beside
  exact (sound.table k t held).distinct m n row other found beside collides

theorem row?_next (sound : db.Sound) (k : Kind) : db.row? k (db.next k) = none := by
  cases stored : db.row? k (db.next k) with
  | none => rfl
  | some row => exact absurd (sound.bounded stored) (Nat.lt_irrefl _)

theorem numberOf_id (k : Kind) (n : Nat) : numberOf k (k.id n) = .ok n :=
  if_pos ((k.owns_iff _).mpr rfl)

theorem numberOf_eq_ok_iff {id : ObjectId} : numberOf k id = .ok n ↔ id = k.id n := by
  constructor
  · intro number
    unfold numberOf at number
    split at number
    · rename_i owned
      cases number
      exact (k.owns_iff id).mp owned
    · cases number
  · intro same
    obtain rfl := same
    exact numberOf_id k n

theorem find_eq_ok {id : ObjectId} {row : Option k.Row} (found : db.find k id = .ok row) :
    ∃ n, id = k.id n ∧ db.row? k n = row := by
  unfold find at found
  cases number : numberOf k id with
  | error e => rw [number] at found; cases found
  | ok n =>
    refine ⟨n, numberOf_eq_ok_iff.mp number, ?_⟩
    rw [number] at found
    unfold table tracked at found
    cases held : db.tables.get k with
    | none => rw [held] at found; cases found
    | some t =>
      rw [held] at found
      cases found
      rw [row?_of_held held]

theorem get_eq_ok {id : ObjectId} {row : k.Row} (found : db.get k id = .ok row) :
    ∃ n, id = k.id n ∧ db.row? k n = some row := by
  unfold get at found
  cases searched : db.find k id with
  | error e => rw [searched] at found; cases found
  | ok result =>
    rw [searched] at found
    cases result with
    | none => cases found
    | some held => cases found; exact find_eq_ok searched

theorem find_of_row? {row : k.Row} (stored : db.row? k n = some row) : db.find k (k.id n) = .ok (some row) := by
  obtain ⟨t, held, found⟩ := held_of_row? stored
  unfold find table tracked
  rw [numberOf_id, held]
  exact congrArg Except.ok found

theorem get_of_row? {row : k.Row} (stored : db.row? k n = some row) : db.get k (k.id n) = .ok row := by
  unfold get
  rw [find_of_row? stored]
  rfl

-- `after` is a database in which `held` stands at a place of `db`, and in which nothing else differs.
structure Puts (db : Database) (k : Kind) (n : Nat) (held : Option k.Row) (after : Database) : Prop where
  continues : db.Continues after
  rows : ∀ m, after.row? k m = if m = n then held else db.row? k m
  others : ∀ j, j ≠ k → after.tables.get j = db.tables.get j

theorem row?_congr (same : after.tables.get k = db.tables.get k) (n : Nat) :
    after.row? k n = db.row? k n := by
  rw [row?, row?, same]

theorem next_congr (same : after.tables.get k = db.tables.get k) : after.next k = db.next k := by
  rw [next, next, same]

theorem Puts.row?_other {held : Option k.Row} {j : Kind} (puts : db.Puts k n held after) (other : j ≠ k)
    (m : Nat) : after.row? j m = db.row? j m :=
  row?_congr (puts.others j other) m

theorem Puts.next_other {held : Option k.Row} {j : Kind} (puts : db.Puts k n held after) (other : j ≠ k) :
    after.next j = db.next j :=
  next_congr (puts.others j other)

theorem puts_of_sets (sound : db.Sound) {t u : Tracked k.Row} {held : Option k.Row}
    (before : db.tables.get k = some t) (continues : t.Continues u) (sets : t.table.Sets n held u.table) :
    db.Puts k n held { db with tables := db.tables.set k (some u) } ∧
      Database.next { db with tables := db.tables.set k (some u) } k = u.table.next := by
  have now : ({ db with tables := db.tables.set k (some u) } : Database).tables.get k = some u :=
    PerKind.get_set_self ..
  refine ⟨⟨continues_set sound before continues, ?_, fun j other => PerKind.get_set_of_ne _ other _⟩,
    next_of_held now⟩
  intro m
  rw [row?_of_held now, row?_of_held before, sets.get?_eq]

theorem create_eq_ok {fill : k.Row → k.Row} {row : k.Row} (sound : db.Sound)
    (created : create k fill db = (.ok row, after)) :
    row = Stored.withNumber (fill Stored.blank) (db.next k) ∧
      db.Puts k (db.next k) (some row) after ∧ after.next k = db.next k + 1 := by
  rw [create_apply] at created
  split at created
  · cases created
  · rename_i t held
    split at created
    · cases created
    · rename_i row table made
      cases created
      have fresh := Table.create_sets (sound.table k t held) made
      rw [next_of_held held]
      obtain ⟨puts, counted⟩ := puts_of_sets sound held
        (Tracked.create_continues (sound.table k t held) made) fresh.2.2.1
      exact ⟨fresh.2.1, puts, counted.trans fresh.2.2.2⟩

theorem modify_eq_ok {change : k.Row → k.Row} (sound : db.Sound)
    (modified : modify k (k.id n) change db = (.ok (), after)) :
    ∃ row, db.row? k n = some row ∧ db.Puts k n (some (Stored.withNumber (change row) n)) after ∧
      after.next k = db.next k := by
  rw [modify_apply, numberOf_id] at modified
  dsimp only at modified
  split at modified
  · cases modified
  · rename_i t held
    split at modified
    · cases modified
    · rename_i row table made
      cases modified
      obtain ⟨found, sets, same⟩ := Table.modify_sets (sound.table k t held) made
      obtain ⟨puts, counted⟩ := puts_of_sets sound held
        (Tracked.modify_continues (sound.table k t held) made) sets
      exact ⟨row, by rw [row?_of_held held, found], puts, by rw [counted, next_of_held held, same]⟩

theorem remove_eq_ok {row : k.Row} (sound : db.Sound)
    (removed : remove k (k.id n) db = (.ok row, after)) :
    db.row? k n = some row ∧ db.Puts k n none after ∧ after.next k = db.next k := by
  rw [remove_apply, numberOf_id] at removed
  dsimp only at removed
  split at removed
  · cases removed
  · rename_i t held
    split at removed
    · cases removed
    · rename_i row table made
      cases removed
      obtain ⟨found, sets, same⟩ := Table.remove_sets (sound.table k t held) made
      obtain ⟨puts, counted⟩ := puts_of_sets sound held
        (Tracked.remove_continues (sound.table k t held) made) sets
      exact ⟨by rw [row?_of_held held, found], puts, by rw [counted, next_of_held held, same]⟩

theorem next_le_of_set {t u : Tracked k.Row} (held : db.tables.get k = some t)
    (grown : t.table.next ≤ u.table.next) (j : Kind) :
    db.next j ≤ ({ db with tables := db.tables.set k (some u) } : Database).next j := by
  by_cases same : j = k
  · subst same
    rw [next_of_held held, next_of_held (PerKind.get_set_self ..)]
    exact grown
  · exact Nat.le_of_eq (next_congr (PerKind.get_set_of_ne _ same _)).symm

theorem create_grows (sound : db.Sound) (fill : k.Row → k.Row) (j : Kind) :
    db.next j ≤ (create k fill db).2.next j := by
  rw [create_apply]
  split
  · exact Nat.le_refl _
  · rename_i t held
    split
    · exact Nat.le_refl _
    · rename_i made
      obtain ⟨-, -, -, counted⟩ := Table.create_sets (sound.table k t held) made
      exact next_le_of_set held (by dsimp only; omega) j

theorem modify_grows (sound : db.Sound) (id : ObjectId) (change : k.Row → k.Row) (j : Kind) :
    db.next j ≤ (modify k id change db).2.next j := by
  rw [modify_apply]
  split
  · exact Nat.le_refl _
  · split
    · exact Nat.le_refl _
    · rename_i t held
      split
      · exact Nat.le_refl _
      · rename_i made
        obtain ⟨-, -, counted⟩ := Table.modify_sets (sound.table k t held) made
        exact next_le_of_set held (Nat.le_of_eq counted.symm) j

theorem remove_grows (sound : db.Sound) (id : ObjectId) (j : Kind) :
    db.next j ≤ (remove k id db).2.next j := by
  rw [remove_apply]
  split
  · exact Nat.le_refl _
  · split
    · exact Nat.le_refl _
    · rename_i t held
      split
      · exact Nat.le_refl _
      · rename_i made
        obtain ⟨-, -, counted⟩ := Table.remove_sets (sound.table k t held) made
        exact next_le_of_set held (Nat.le_of_eq counted.symm) j

theorem Edited.grows {kinds : List Kind} (edited : Edited kinds db after) (sound : db.Sound) (j : Kind) :
    db.next j ≤ after.next j := by
  induction edited with
  | refl => exact Nat.le_refl _
  | create earlier _ fill ih =>
    exact Nat.le_trans ih (create_grows ((earlier.continues sound).sound sound) fill j)
  | modify earlier _ id change ih =>
    exact Nat.le_trans ih (modify_grows ((earlier.continues sound).sound sound) id change j)
  | remove earlier _ id ih =>
    exact Nat.le_trans ih (remove_grows ((earlier.continues sound).sound sound) id j)

theorem create_succeeds (sound : db.Sound) (complete : db.Complete) (fill : k.Row → k.Row)
    (free : ∀ m other, db.row? k m = some other →
      ¬ Table.Collides (Stored.withNumber (fill Stored.blank) (db.next k)) other) :
    ∃ row after, create k fill db = (.ok row, after) := by
  obtain ⟨t, held⟩ := Option.isSome_iff_exists.mp (complete k)
  have unclashed : t.table.clash? (Stored.withNumber (fill Stored.blank) t.table.next) none = none := by
    rw [Table.clash?_eq_none_iff (sound.table k t held).toCoherent]
    intro m other found collides
    rw [← next_of_held held] at collides
    exact absurd collides (free m other (by rw [row?_of_held held, found]))
  rw [create_apply, held]
  dsimp only
  unfold Table.create
  simp only [unclashed]
  exact ⟨_, _, rfl⟩

theorem modify_succeeds (sound : db.Sound) {row : k.Row} (stored : db.row? k n = some row)
    (change : k.Row → k.Row) (free : ∀ m other, db.row? k m = some other →
      Table.Collides (Stored.withNumber (change row) n) other → m = n) :
    ∃ after, modify k (k.id n) change db = (.ok (), after) := by
  obtain ⟨t, held, found⟩ := held_of_row? stored
  have unclashed : t.table.clash? (Stored.withNumber (change row) n) (some n) = none := by
    rw [Table.clash?_eq_none_iff (sound.table k t held).toCoherent]
    intro m other beside collides
    exact congrArg some (free m other (by rw [row?_of_held held, beside]) collides)
  rw [modify_apply, numberOf_id, held]
  dsimp only
  unfold Table.modify
  simp only [found, unclashed]
  exact ⟨_, rfl⟩

theorem remove_succeeds {row : k.Row} (stored : db.row? k n = some row) :
    ∃ after, remove k (k.id n) db = (.ok row, after) := by
  obtain ⟨t, held, found⟩ := held_of_row? stored
  rw [remove_apply, numberOf_id, held]
  dsimp only
  unfold Table.remove
  simp only [found]
  exact ⟨_, rfl⟩

end Database

namespace Change

-- The change succeeds, and its answer and what it leaves are as `post` says.
def Ends (change : Change ε α) (db : Database) (post : α → Database → Prop) : Prop :=
  ∃ a after, change db = (.ok a, after) ∧ post a after

variable {change : Change ε α} {post : α → Database → Prop}

theorem Ends.weaken {wider : α → Database → Prop} (ends : change.Ends db post)
    (implied : ∀ a after, post a after → wider a after) : change.Ends db wider := by
  obtain ⟨a, after, run, holds⟩ := ends
  exact ⟨a, after, run, implied a after holds⟩

theorem pure_ends {a : α} (holds : post a db) : Ends (pure a : Change ε α) db post :=
  ⟨a, db, rfl, holds⟩

theorem Ends.bind {next : α → Change ε β} {last : β → Database → Prop} (first : change.Ends db post)
    (later : ∀ a mid, post a mid → (next a).Ends mid last) : (change >>= next).Ends db last := by
  obtain ⟨a, mid, run, holds⟩ := first
  obtain ⟨b, after, rest, holds⟩ := later a mid holds
  exact ⟨b, after, by rw [bind_apply, run]; exact rest, holds⟩

theorem Ends.adapt (f : ε → δ) (ends : change.Ends db post) : Ends (change.adapt f) db post := by
  obtain ⟨a, after, run, holds⟩ := ends
  exact ⟨a, after, by rw [adapt_apply, run]; rfl, holds⟩

theorem Ends.edited {kinds : List Kind} (ends : change.Ends db post) (edits : change.Edits kinds) :
    change.Ends db fun a after => post a after ∧ Database.Edited kinds db after := by
  obtain ⟨a, after, run, holds⟩ := ends
  have edited := edits db
  rw [run] at edited
  exact ⟨a, after, run, holds, edited⟩

-- The invariant of a loop may speak of what is still to come.
theorem forM_ends {act : α → Change ε PUnit} (invariant : List α → Database → Prop)
    (step : ∀ a rest db, invariant (a :: rest) db → (act a).Ends db fun _ after => invariant rest after)
    (list : List α) (holds : invariant list db) :
    Ends (list.forM act) db fun _ after => invariant [] after := by
  induction list generalizing db with
  | nil => exact pure_ends holds
  | cons a rest ih => exact (step a rest db holds).bind fun _ mid holds => ih holds

theorem mapM_ends {act : α → Change ε β} (invariant : List α → Database → Prop)
    (step : ∀ a rest db, invariant (a :: rest) db → (act a).Ends db fun _ after => invariant rest after)
    (list : List α) (holds : invariant list db) :
    Ends (list.mapM act) db fun _ after => invariant [] after := by
  induction list generalizing db with
  | nil => exact pure_ends holds
  | cons a rest ih =>
    rw [List.mapM_cons]
    exact (step a rest db holds).bind fun _ mid holds => (ih holds).bind fun _ _ holds => pure_ends holds

theorem bind_eq_ok {next : α → Change ε β} {b : β} (run : (change >>= next) db = (.ok b, after)) :
    ∃ a mid, change db = (.ok a, mid) ∧ next a mid = (.ok b, after) := by
  rw [bind_apply] at run
  cases made : change db with
  | mk result mid =>
    rw [made] at run
    cases result with
    | error e => cases run
    | ok a => exact ⟨a, mid, rfl, run⟩

end Change

end RoomLedger
