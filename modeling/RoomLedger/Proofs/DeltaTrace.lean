import RoomLedger.Store.Delta
import RoomLedger.Proofs.TableContents

namespace RoomLedger

open Std

namespace Delta

variable {α : Type}

-- What a delta says of one number. Noting, absorbing and reverting are all decided number by
-- number.
structure Trace (α : Type) where
  modified? : Option α
  created : Bool
  removed? : Option α

namespace Trace

def noteCreated (t : Trace α) : Trace α := { t with created := true }

def noteModified (t : Trace α) (before : α) : Trace α :=
  if t.created || t.modified?.isSome then t else { t with modified? := some before }

def noteRemoved (t : Trace α) (before : α) : Trace α :=
  if t.created then { t with created := false }
  else ⟨none, false, some (t.removed?.getD (t.modified?.getD before))⟩

def absorb (outer inner : Trace α) : Trace α :=
  let t := inner.modified?.elim outer outer.noteModified
  let t := if inner.created then t.noteCreated else t
  inner.removed?.elim t t.noteRemoved

-- The five ways in which a row can stand at the beginning and the end of a session.
inductive Explains : Trace α → Option α → Option α → Prop where
  | absent : Explains ⟨none, false, none⟩ none none
  | created : Explains ⟨none, true, none⟩ none (some row)
  | removed : Explains ⟨none, false, some row⟩ (some row) none
  | modified : Explains ⟨some before, false, none⟩ (some before) (some after)
  | kept : Explains ⟨none, false, none⟩ (some row) (some row)

variable {t outer inner : Trace α} {before middle after : Option α} {row next : α}

theorem unchanged (held : Option α) : Explains ⟨none, false, none⟩ held held := by
  cases held with
  | none => exact .absent
  | some row => exact .kept

theorem Explains.noteCreated (before : t.Explains none none) : t.noteCreated.Explains none (some row) := by
  cases before
  exact .created

theorem Explains.noteModified (earlier : t.Explains before (some row)) :
    (t.noteModified row).Explains before (some next) := by
  cases earlier with
  | created => exact .created
  | modified => exact .modified
  | kept => exact .modified

theorem Explains.noteRemoved (earlier : t.Explains before (some row)) :
    (t.noteRemoved row).Explains before none := by
  cases earlier with
  | created => exact .absent
  | modified => exact .removed
  | kept => exact .removed

theorem created_noteModified (t : Trace α) (before : α) :
    (t.noteModified before).created = t.created := by
  unfold noteModified
  split <;> rfl

theorem created_of_noteRemoved (created : (t.noteRemoved row).created = true) : t.created = true := by
  unfold noteRemoved at created
  split at created
  · cases created
  · cases created

theorem created_of_absorb (created : (outer.absorb inner).created = true) :
    outer.created = true ∨ inner.created = true := by
  have kept : (inner.modified?.elim outer outer.noteModified).created = outer.created := by
    cases inner.modified? with
    | none => rfl
    | some before => exact created_noteModified outer before
  cases fresh : inner.created with
  | true => exact .inr rfl
  | false =>
    refine .inl (kept ▸ ?_)
    simp only [absorb, fresh] at created
    cases removed : inner.removed? with
    | none => simpa [removed] using created
    | some before =>
      simp only [removed, Option.elim_some] at created
      exact created_of_noteRemoved created

theorem Explains.held_modified (explains : t.Explains before after) (held : t.modified? = some row) :
    before = some row := by
  cases explains <;> simp_all

theorem Explains.held_removed (explains : t.Explains before after) (held : t.removed? = some row) :
    before = some row := by
  cases explains <;> simp_all

theorem Explains.there_of_created (explains : t.Explains before after) (created : t.created = true) :
    before = none ∧ after ≠ none := by
  cases explains <;> simp_all

-- Where no image was kept and nothing created, nothing has happened.
theorem Explains.untouched (explains : t.Explains before after) (modified : t.modified? = none)
    (removed : t.removed? = none) : before = if t.created then none else after := by
  cases explains <;> simp_all

-- Merging two sessions explains the row across both. No number is given out again after a removal,
-- which is the one combination that the three sets of a delta have no words for.
theorem Explains.absorb (first : outer.Explains before middle) (second : inner.Explains middle after)
    (fresh : inner.created = true → before = none) : (outer.absorb inner).Explains before after := by
  cases first with
  | absent => cases second <;> constructor
  | created => cases second <;> constructor
  | removed =>
    cases second with
    | absent => exact .removed
    -- The number would have been given out twice.
    | created => cases fresh rfl
  | modified => cases second <;> constructor
  | kept => cases second <;> constructor

end Trace

def trace (d : Delta α) (n : Nat) : Trace α := ⟨d.modified.get? n, d.created.contains n, d.removed.get? n⟩

theorem trace_noteCreated (d : Delta α) (number next n : Nat) :
    (d.noteCreated number next).trace n =
      if n = number then (d.trace n).noteCreated else d.trace n := by
  simp only [trace, noteCreated, noteNext, SortedSet.contains_insert, Trace.noteCreated]
  split <;> rename_i same <;> simp [same]

theorem trace_noteModified (d : Delta α) (number n : Nat) (before : α) :
    (d.noteModified number before).trace n =
      if n = number then (d.trace n).noteModified before else d.trace n := by
  unfold noteModified
  by_cases known : d.created.contains number || d.modified.contains number
  · rw [if_pos known]
    split
    · rename_i same
      subst same
      exact (if_pos known).symm
    · rfl
  · rw [if_neg known]
    split
    · rename_i same
      subst same
      have noted : (d.trace n).noteModified before = { d.trace n with modified? := some before } :=
        if_neg known
      rw [noted]
      simp [trace, SortedMap.get?_insert]
    · rename_i other
      simp [trace, SortedMap.get?_insert, other]

theorem trace_noteRemoved (d : Delta α) (number n : Nat) (before : α) :
    (d.noteRemoved number before).trace n =
      if n = number then (d.trace n).noteRemoved before else d.trace n := by
  unfold noteRemoved
  by_cases created : d.created.contains number = true
  · rw [if_pos created]
    split
    · rename_i same
      subst same
      have noted : (d.trace n).noteRemoved before = { d.trace n with created := false } := if_pos created
      rw [noted]
      simp [trace, SortedSet.contains_erase]
    · rename_i other
      simp [trace, SortedSet.contains_erase, other]
  · rw [if_neg created]
    split
    · rename_i same
      subst same
      have noted : (d.trace n).noteRemoved before =
          ⟨none, false, some ((d.removed.get? n).getD ((d.modified.get? n).getD before))⟩ := if_neg created
      rw [noted]
      simp [trace, SortedMap.get?_erase, SortedMap.get?_insertNew, created]
    · rename_i other
      simp [trace, SortedMap.get?_erase, SortedMap.get?_insertNew, other]

theorem trace_foldl_noteModified (d : Delta α) (modified : SortedMap Nat α) (n : Nat) :
    (modified.entries.foldl (fun d e => d.noteModified e.1 e.2) d).trace n =
      (modified.get? n).elim (d.trace n) (d.trace n).noteModified := by
  rw [modified.foldl_entries_local (fun d e => d.noteModified e.1 e.2) trace]
  · cases modified.get? n with
    | none => rfl
    | some before => simp [trace_noteModified]
  · intro d e k other
    rw [trace_noteModified, if_neg other]
  · intro d d' e same
    simp only [trace_noteModified, same]

theorem trace_foldl_noteRemoved (d : Delta α) (removed : SortedMap Nat α) (n : Nat) :
    (removed.entries.foldl (fun d e => d.noteRemoved e.1 e.2) d).trace n =
      (removed.get? n).elim (d.trace n) (d.trace n).noteRemoved := by
  rw [removed.foldl_entries_local (fun d e => d.noteRemoved e.1 e.2) trace]
  · cases removed.get? n with
    | none => rfl
    | some before => simp [trace_noteRemoved]
  · intro d e k other
    rw [trace_noteRemoved, if_neg other]
  · intro d d' e same
    simp only [trace_noteRemoved, same]

theorem trace_union_created (d : Delta α) (created : SortedSet Nat) (n : Nat) :
    ({ d with created := d.created.union created } : Delta α).trace n =
      if created.contains n then (d.trace n).noteCreated else d.trace n := by
  cases inside : created.contains n <;>
    simp [trace, SortedSet.contains_union, inside, Trace.noteCreated]

theorem trace_absorb (outer inner : Delta α) (n : Nat) :
    (outer.absorb inner).trace n = (outer.trace n).absorb (inner.trace n) := by
  unfold absorb
  rw [trace_foldl_noteRemoved, trace_union_created, trace_foldl_noteModified]
  cases inner.next? <;> rfl

theorem next?_noteModified (d : Delta α) (n : Nat) (before : α) :
    (d.noteModified n before).next? = d.next? := by
  unfold noteModified
  split <;> rfl

theorem next?_noteRemoved (d : Delta α) (n : Nat) (before : α) :
    (d.noteRemoved n before).next? = d.next? := by
  unfold noteRemoved
  split <;> rfl

theorem next?_foldl {step : Delta α → Nat × α → Delta α} (keeps : ∀ d e, (step d e).next? = d.next?)
    (entries : List (Nat × α)) (d : Delta α) : (entries.foldl step d).next? = d.next? := by
  induction entries generalizing d with
  | nil => rfl
  | cons e rest ih => rw [List.foldl_cons, ih, keeps]

theorem next?_absorb (outer inner : Delta α) :
    (outer.absorb inner).next? = outer.next?.or inner.next? := by
  unfold absorb
  rw [next?_foldl fun d e => next?_noteRemoved d e.1 e.2]
  dsimp only
  rw [next?_foldl fun d e => next?_noteModified d e.1 e.2]
  cases inner.next? with
  | none => simp
  | some next => cases known : outer.next? <;> simp [noteNext, known]

theorem mem_images_iff {d : Delta α} {row : α} : row ∈ d.modified.values ++ d.removed.values ↔
    ∃ n, d.modified.get? n = some row ∨ d.removed.get? n = some row := by
  rw [List.mem_append, SortedMap.mem_values_iff, SortedMap.mem_values_iff]
  exact exists_or.symm

theorem images_eq_none {d : Delta α} {n : Nat}
    (free : ∀ row, ¬ (d.modified.get? n = some row ∨ d.removed.get? n = some row)) :
    d.modified.get? n = none ∧ d.removed.get? n = none :=
  ⟨Option.eq_none_iff_forall_ne_some.mpr fun row found => free row (.inl found),
    Option.eq_none_iff_forall_ne_some.mpr fun row found => free row (.inr found)⟩

variable [Stored α] {d outer inner : Delta α} {s t u after : Table α} {n : Nat} {row next : α}

-- `d` is what a session says that found the table as `s` and has made `t` of it.
structure Spans (d : Delta α) (s t : Table α) : Prop where
  explained : ∀ n, (d.trace n).Explains (s.get? n) (t.get? n)
  fresh : ∀ n, (d.trace n).created = true → s.next ≤ n
  counter : d.next?.getD t.next = s.next
  grown : s.next ≤ t.next

omit [Stored α] in
theorem spans_empty (t : Table α) : empty.Spans t t := by
  refine ⟨fun n => Trace.unchanged (t.get? n), ?_, rfl, Nat.le_refl _⟩
  intro n created
  cases created

theorem get?_of_fresh (sound : s.Sound) (beyond : s.next ≤ n) : s.get? n = none := by
  cases found : s.get? n with
  | none => rfl
  | some row => have := sound.bounded n row found; omega

theorem Spans.noteCreated (spans : d.Spans s t) (before : s.Sound) (sound : t.Sound)
    (sets : t.Sets t.next (some row) after) (counted : after.next = t.next + 1) :
    (d.noteCreated t.next t.next).Spans s after := by
  have grown := spans.grown
  refine ⟨?_, ?_, spans.counter, by omega⟩
  · intro n
    rw [trace_noteCreated, sets.get?_eq]
    split
    · rename_i same
      subst same
      have earlier := spans.explained t.next
      rw [Table.get?_next sound, get?_of_fresh before grown] at earlier
      rw [get?_of_fresh before grown]
      exact earlier.noteCreated
    · exact spans.explained n
  · intro n created
    rw [trace_noteCreated] at created
    split at created
    · rename_i same
      subst same
      exact grown
    · exact spans.fresh n created

theorem Spans.noteModified (spans : d.Spans s t) (found : t.get? n = some row)
    (sets : t.Sets n (some next) after) (counted : after.next = t.next) :
    (d.noteModified n row).Spans s after := by
  refine ⟨?_, ?_, ?_, by rw [counted]; exact spans.grown⟩
  · intro m
    rw [trace_noteModified, sets.get?_eq]
    split
    · rename_i same
      subst same
      have earlier := spans.explained m
      rw [found] at earlier
      exact earlier.noteModified
    · exact spans.explained m
  · intro m created
    rw [trace_noteModified] at created
    split at created
    · exact spans.fresh m (by rwa [Trace.created_noteModified] at created)
    · exact spans.fresh m created
  · rw [next?_noteModified, counted]
    exact spans.counter

theorem Spans.noteRemoved (spans : d.Spans s t) (found : t.get? n = some row)
    (sets : t.Sets n none after) (counted : after.next = t.next) :
    (d.noteRemoved n row).Spans s after := by
  refine ⟨?_, ?_, ?_, by rw [counted]; exact spans.grown⟩
  · intro m
    rw [trace_noteRemoved, sets.get?_eq]
    split
    · rename_i same
      subst same
      have earlier := spans.explained m
      rw [found] at earlier
      exact earlier.noteRemoved
    · exact spans.explained m
  · intro m created
    rw [trace_noteRemoved] at created
    split at created
    · exact spans.fresh m (Trace.created_of_noteRemoved created)
    · exact spans.fresh m created
  · rw [next?_noteRemoved, counted]
    exact spans.counter

theorem Spans.absorb (first : outer.Spans s t) (second : inner.Spans t u) (before : s.Sound) :
    (outer.absorb inner).Spans s u := by
  have grown := first.grown
  refine ⟨?_, ?_, ?_, Nat.le_trans grown second.grown⟩
  · intro n
    rw [trace_absorb]
    apply (first.explained n).absorb (second.explained n)
    intro created
    exact get?_of_fresh before (Nat.le_trans grown (second.fresh n created))
  · intro n created
    rw [trace_absorb] at created
    rcases Trace.created_of_absorb created with early | late
    · exact first.fresh n early
    · exact Nat.le_trans grown (second.fresh n late)
  · have early := first.counter
    have late := second.counter
    rw [next?_absorb]
    cases known : outer.next? with
    | none => simpa [known, late] using early
    | some next => simpa [known] using early

-- Erasing what was created leaves the rows that were there at the beginning, as they are now.
theorem foldlM_remove (numbers : List Nat) (distinct : numbers.Nodup) (coherent : t.Coherent)
    (held : ∀ n ∈ numbers, t.get? n ≠ none) :
    ∃ erased : Table α, erased.next = t.next ∧
      numbers.foldlM (fun t number => do return (← Table.remove t number).2) t = .ok erased ∧
        erased.Coherent ∧ ∀ n, erased.get? n = if n ∈ numbers then none else t.get? n := by
  induction numbers generalizing t with
  | nil => exact ⟨t, rfl, rfl, coherent, by simp⟩
  | cons number rest ih =>
    obtain ⟨absent, distinct⟩ := List.nodup_cons.mp distinct
    obtain ⟨row, found⟩ := Option.ne_none_iff_exists'.mp (held number (List.mem_cons_self ..))
    have gone : ∀ n, (⟨t.next, t.rows.erase number, Table.delist row t.listings⟩ : Table α).get? n =
        if n = number then none else t.get? n := SortedMap.get?_erase t.rows number
    obtain ⟨erased, next, run, coherent, found_rest⟩ :=
      ih distinct (Table.erased_coherent coherent found) (by
        intro n member
        have other : n ≠ number := by rintro rfl; exact absent member
        rw [gone, if_neg other]
        exact held n (List.mem_cons_of_mem _ member))
    refine ⟨erased, next, ?_, coherent, ?_⟩
    · simp only [List.foldlM_cons, Table.remove, found]
      exact run
    · intro n
      rw [found_rest, gone]
      by_cases same : n = number <;> simp [same]

theorem foldl_put (rows : List α) (coherent : t.Coherent)
    (belong : ∀ row ∈ rows, s.get? (Stored.number row) = some row) :
    (rows.foldl Table.put t).Coherent ∧ (rows.foldl Table.put t).next = t.next ∧
      ∀ n, (rows.foldl Table.put t).get? n =
        if n ∈ rows.map Stored.number then s.get? n else t.get? n := by
  induction rows generalizing t with
  | nil => exact ⟨coherent, rfl, by simp⟩
  | cons row rest ih =>
    obtain ⟨coherent, next, found⟩ :=
      ih (Table.put_coherent coherent row) fun row member => belong row (List.mem_cons_of_mem _ member)
    refine ⟨coherent, next, ?_⟩
    intro n
    rw [List.foldl_cons, found, Table.get?_put]
    have own := belong row (List.mem_cons_self ..)
    by_cases same : n = Stored.number row
    · subst same
      simp [own]
    · simp [same]

theorem Spans.images (spans : d.Spans s t) (before : s.Sound) (n : Nat) (row : α) :
    (d.modified.get? n = some row ∨ d.removed.get? n = some row) →
      s.get? n = some row ∧ Stored.number row = n := by
  intro image
  have held : s.get? n = some row := by
    rcases image with modified | removed
    · exact (spans.explained n).held_modified modified
    · exact (spans.explained n).held_removed removed
  exact ⟨held, before.numbered n row held⟩

theorem Spans.revert (spans : d.Spans s t) (before : s.Sound) (coherent : t.Coherent) :
    d.revert t = .ok s := by
  -- Erasing comes first, and the images are put back over what is left.
  have createdIff : ∀ n, n ∈ d.created.toList ↔ (d.trace n).created = true := d.created.mem_toList_iff
  obtain ⟨erased, erasedNext, run, erasedCoherent, erasedFound⟩ :=
    foldlM_remove d.created.toList d.created.nodup_toList coherent fun n member =>
      ((spans.explained n).there_of_created ((createdIff n).mp member)).2
  obtain ⟨restoredCoherent, restoredNext, restoredFound⟩ :=
    foldl_put (s := s) (d.modified.values ++ d.removed.values) erasedCoherent (by
      intro row member
      obtain ⟨n, kept⟩ := mem_images_iff.mp member
      obtain ⟨held, number⟩ := spans.images before n row kept
      rwa [number])
  have result : d.revert t = .ok { (d.modified.values ++ d.removed.values).foldl Table.put erased with
      next := d.next?.getD ((d.modified.values ++ d.removed.values).foldl Table.put erased).next } := by
    unfold Delta.revert
    rw [run]
    rfl
  rw [result]
  refine congrArg Except.ok (Table.Coherent.ext ⟨restoredCoherent.mirrored, restoredCoherent.numbered⟩
    before.toCoherent ?_ ?_)
  · change d.next?.getD ((d.modified.values ++ d.removed.values).foldl Table.put erased).next = s.next
    rw [restoredNext, erasedNext, spans.counter]
  · intro n
    apply (restoredFound n).trans
    split
    · rfl
    · rename_i free
      obtain ⟨modified, removed⟩ : d.modified.get? n = none ∧ d.removed.get? n = none := by
        apply images_eq_none
        intro row kept
        exact free (List.mem_map.mpr ⟨row, mem_images_iff.mpr ⟨n, kept⟩, (spans.images before n row kept).2⟩)
      rw [erasedFound, (spans.explained n).untouched modified removed]
      simp only [createdIff]

end Delta

end RoomLedger
