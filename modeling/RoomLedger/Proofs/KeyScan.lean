import RoomLedger.Store.Table
import RoomLedger.Proofs.SortedContents

namespace RoomLedger

open Std

namespace Table

-- `below` cuts off what is too small. Among the rest the ones that fit come first.
theorem walk_eq_filter {β : Type} {before : β → β → Prop} {below fits : β → Bool} {entries : List β}
    (sorted : entries.Pairwise before)
    (down : ∀ a b, before a b → below b = true → below a = true)
    (apart : ∀ a, fits a = true → below a = false)
    (convex : ∀ a b, before a b → below a = false → fits b = true → fits a = true) :
    (entries.dropWhile below).takeWhile fits = entries.filter fits := by
  induction entries with
  | nil => rfl
  | cons a rest ih =>
    obtain ⟨first, sorted⟩ := List.pairwise_cons.mp sorted
    cases low : below a with
    | true =>
      have misfit : fits a = false := by
        cases fit : fits a with
        | false => rfl
        | true => simp [apart a fit] at low
      simp [low, misfit, ih sorted]
    | false =>
      have high : ∀ b ∈ rest, below b = false := by
        intro b later
        cases lowLater : below b with
        | false => rfl
        | true => simp [down a b (first b later) lowLater] at low
      have start : rest.dropWhile below = rest := by
        cases rest with
        | nil => rfl
        | cons b rest => simp [high b (List.mem_cons_self ..)]
      rw [start] at ih
      cases fit : fits a with
      | true => simp [low, fit, ih sorted]
      | false =>
        -- What fits stands together, so nothing fits once an entry that is not too small does not.
        have none : ∀ b ∈ rest, ¬ fits b = true := by
          intro b later fitLater
          simp [convex a b (first b later) low fitLater] at fit
        simpa [low, fit] using none

section Keys

variable {α : Type} [Ord α] [LawfulEqOrd α]

theorem eq_of_between [TransOrd α] {start key : List α} (low : (compare start key).isLE = true)
    (high : (compare key start).isLE = true) : key = start := by
  cases order : compare key start with
  | lt => simp [OrientedCmp.gt_of_lt order] at low
  | eq => exact LawfulEqOrd.eq_of_compare order
  | gt => simp [order] at high

variable [BEq α] [LawfulBEq α]

theorem le_of_isPrefixOf {start key : List α} (longer : start.isPrefixOf key = true) :
    (compare start key).isLE = true := by
  induction start generalizing key with
  | nil => cases key <;> rfl
  | cons a start ih =>
    cases key with
    | nil => cases longer
    | cons b key =>
      simp only [List.isPrefixOf_cons_cons, Bool.and_eq_true, beq_iff_eq] at longer
      obtain ⟨rfl, longer⟩ := longer
      rw [List.compare_cons_cons, ReflOrd.compare_self]
      exact ih longer

variable [TransOrd α]

-- A key between a beginning and an extension of it extends it as well.
theorem isPrefixOf_between {start key upper : List α} (low : (compare start key).isLE = true)
    (high : (compare key upper).isLE = true) (longer : start.isPrefixOf upper = true) :
    start.isPrefixOf key = true := by
  induction start generalizing key upper with
  | nil => rfl
  | cons a start ih =>
    cases upper with
    | nil => cases longer
    | cons c upper =>
      simp only [List.isPrefixOf_cons_cons, Bool.and_eq_true, beq_iff_eq] at longer
      obtain ⟨rfl, longer⟩ := longer
      cases key with
      | nil => cases low
      | cons b key =>
        rw [List.compare_cons_cons] at low high
        -- The first part is squeezed between two that are the same.
        cases order : compare a b with
        | lt =>
          have back : compare b a = .gt := OrientedCmp.gt_of_lt order
          simp [back] at high
        | gt => simp [order] at low
        | eq =>
          cases LawfulEqOrd.eq_of_compare order
          simp only [ReflOrd.compare_self, Ordering.then] at low high
          simpa using ih low high longer

end Keys

theorem compare_entry (a b : Entry) :
    compare a b = (compare a.key b.key).then (compare a.number b.number) := rfl

theorem below_iff (e : Entry) (start : Key) :
    (compare e ⟨start, 0⟩).isLT = (compare e.key start).isLT := by
  have bottom : compare e.number 0 ≠ .lt := by simp [Nat.compare_eq_lt]
  rw [compare_entry]
  cases compare e.key start with
  | lt => rfl
  | gt => rfl
  | eq =>
    cases order : compare e.number 0 with
    | lt => exact absurd order bottom
    | eq => rfl
    | gt => rfl

theorem key_le_of_before {a b : Entry} (before : compare a b = .lt) :
    (compare a.key b.key).isLE = true := by
  rw [compare_entry] at before
  cases order : compare a.key b.key with
  | lt => rfl
  | eq => rfl
  | gt => simp [order] at before

theorem not_below_iff (start key : Key) :
    (compare key start).isLT = false ↔ (compare start key).isLE = true := by
  have swapped : compare start key = (compare key start).swap := OrientedCmp.eq_swap
  rw [swapped]
  cases compare key start <;> simp

theorem scan_eq_filter (listing : Listing) (start : Key) (fits : Key → Bool)
    (above : ∀ key, fits key = true → (compare start key).isLE = true)
    (convex : ∀ key upper, (compare start key).isLE = true → (compare key upper).isLE = true →
      fits upper = true → fits key = true) :
    (entriesFrom start listing).takeWhile (fits ·.key) = listing.toList.filter (fits ·.key) := by
  refine walk_eq_filter listing.ascending_toList ?_ ?_ ?_
  · intro a b before low
    have order : compare b ⟨start, 0⟩ = .lt := by simpa [Ordering.isLT_iff_eq_lt] using low
    simp [TransCmp.lt_trans before order]
  · intro a fit
    rw [below_iff]
    exact (not_below_iff start a.key).mpr (above a.key fit)
  · intro a b before high fit
    rw [below_iff] at high
    exact convex a.key b.key ((not_below_iff start a.key).mp high) (key_le_of_before before) fit

theorem scan_key (listing : Listing) (key : Key) :
    (entriesFrom key listing).takeWhile (·.key == key) = listing.toList.filter (·.key == key) := by
  refine scan_eq_filter listing key (· == key) ?_ ?_
  · intro other same
    cases (beq_iff_eq.mp same)
    simp [ReflOrd.compare_self]
  · intro other upper low high same
    cases (beq_iff_eq.mp same)
    exact beq_iff_eq.mpr (eq_of_between low high)

theorem scan_start (listing : Listing) (start : Key) :
    (entriesFrom start listing).takeWhile (start.isPrefixOf ·.key) =
      listing.toList.filter (start.isPrefixOf ·.key) :=
  scan_eq_filter listing start start.isPrefixOf (fun _ => le_of_isPrefixOf)
    fun _ _ => isPrefixOf_between

end Table

end RoomLedger
