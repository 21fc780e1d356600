namespace RoomLedger

open Std

variable {κ α β : Type} [Ord κ]

def Ascending (entries : List (κ × α)) : Prop :=
  entries.Pairwise fun a b => compare a.1 b.1 = .lt

-- One pass: the entry lands in its place, or takes the place of the entry with its key.
def insertEntry (key : κ) (value : α) : List (κ × α) → List (κ × α)
  | [] => [(key, value)]
  | entry :: rest =>
    match compare key entry.1 with
    | .lt => (key, value) :: entry :: rest
    | .eq => (key, value) :: rest
    | .gt => entry :: insertEntry key value rest

def lookupEntry (key : κ) : List (κ × α) → Option α
  | [] => none
  | entry :: rest =>
    match compare key entry.1 with
    | .lt => none
    | .eq => some entry.2
    | .gt => lookupEntry key rest

def eraseEntry (key : κ) : List (κ × α) → List (κ × α)
  | [] => []
  | entry :: rest =>
    match compare key entry.1 with
    | .lt => entry :: rest
    | .eq => rest
    | .gt => entry :: eraseEntry key rest

theorem mem_insertEntry {key : κ} {value : α} {e : κ × α} {entries : List (κ × α)}
    (h : e ∈ insertEntry key value entries) : e = (key, value) ∨ e ∈ entries := by
  induction entries with
  | nil => simpa [insertEntry] using h
  | cons entry rest ih =>
    rw [insertEntry] at h
    split at h
    · simpa using h
    · rcases List.mem_cons.mp h with rfl | h
      · exact .inl rfl
      · exact .inr (List.mem_cons_of_mem _ h)
    · rcases List.mem_cons.mp h with rfl | h
      · exact .inr (List.mem_cons_self ..)
      · exact (ih h).imp id (List.mem_cons_of_mem _)

theorem eraseEntry_sublist (key : κ) (entries : List (κ × α)) :
    List.Sublist (eraseEntry key entries) entries := by
  induction entries with
  | nil => exact .slnil
  | cons entry rest ih =>
    rw [eraseEntry]
    split
    · exact List.Sublist.refl _
    · exact List.sublist_cons_self _ _
    · exact ih.cons_cons _

theorem Ascending.insertEntry [TransOrd κ] [LawfulEqOrd κ] {entries : List (κ × α)}
    (h : Ascending entries) (key : κ) (value : α) : Ascending (insertEntry key value entries) := by
  induction entries with
  | nil => exact List.pairwise_singleton _ _
  | cons entry rest ih =>
    obtain ⟨head, tail⟩ := List.pairwise_cons.mp h
    rw [RoomLedger.insertEntry]
    split
    · rename_i lt
      refine List.pairwise_cons.mpr ⟨fun e he => ?_, h⟩
      rcases List.mem_cons.mp he with rfl | he
      · exact lt
      · exact TransCmp.lt_trans lt (head e he)
    · rename_i eq
      cases LawfulEqOrd.eq_of_compare eq
      exact List.pairwise_cons.mpr ⟨head, tail⟩
    · rename_i gt
      refine List.pairwise_cons.mpr ⟨fun e he => ?_, ih tail⟩
      rcases mem_insertEntry he with rfl | he
      · exact OrientedCmp.lt_of_gt gt
      · exact head e he

-- The order is part of the value, so two maps with the same entries are equal, and whatever is
-- written from a map comes out in one order only.
structure SortedMap (κ α : Type) [Ord κ] where
  entries : List (κ × α)
  ascending : Ascending entries

namespace SortedMap

def empty : SortedMap κ α := ⟨[], List.Pairwise.nil⟩

instance : Inhabited (SortedMap κ α) := ⟨empty⟩
instance : EmptyCollection (SortedMap κ α) := ⟨empty⟩

theorem ext {m n : SortedMap κ α} (h : m.entries = n.entries) : m = n := by
  cases m; cases n; cases h; rfl

instance [DecidableEq κ] [DecidableEq α] : DecidableEq (SortedMap κ α) := fun m n =>
  if h : m.entries = n.entries then isTrue (ext h) else isFalse (h <| congrArg entries ·)

def keys (m : SortedMap κ α) : List κ := m.entries.map (·.1)
def values (m : SortedMap κ α) : List α := m.entries.map (·.2)
def size (m : SortedMap κ α) : Nat := m.entries.length
def isEmpty (m : SortedMap κ α) : Bool := m.entries.isEmpty

def get? (m : SortedMap κ α) (key : κ) : Option α := lookupEntry key m.entries
def contains (m : SortedMap κ α) (key : κ) : Bool := (m.get? key).isSome

def erase [TransOrd κ] (m : SortedMap κ α) (key : κ) : SortedMap κ α :=
  ⟨eraseEntry key m.entries, m.ascending.sublist (eraseEntry_sublist key m.entries)⟩

@[simp] theorem get?_empty (k : κ) : (empty : SortedMap κ α).get? k = none := rfl

theorem lookupEntry_none_of_lt {k : κ} {entries : List (κ × α)}
    (h : ∀ e ∈ entries, compare k e.1 = .lt) : lookupEntry k entries = none := by
  cases entries with
  | nil => rfl
  | cons e rest => rw [lookupEntry, h e (List.mem_cons_self ..)]

variable [TransOrd κ] [LawfulEqOrd κ]

def insert (m : SortedMap κ α) (key : κ) (value : α) : SortedMap κ α :=
  ⟨insertEntry key value m.entries, m.ascending.insertEntry key value⟩

def insertNew (m : SortedMap κ α) (key : κ) (value : α) : SortedMap κ α :=
  if m.contains key then m else m.insert key value

-- The map of a list of entries, of which the last one for a key counts.
def ofList (entries : List (κ × α)) : SortedMap κ α :=
  entries.foldl (fun m e => m.insert e.1 e.2) empty

theorem lookupEntry_insertEntry [DecidableEq κ] (key k : κ) (value : α) (entries : List (κ × α)) :
    lookupEntry k (insertEntry key value entries) =
      if k = key then some value else lookupEntry k entries := by
  induction entries with
  | nil =>
    by_cases h : k = key
    · subst h; simp [insertEntry, lookupEntry, ReflOrd.compare_self]
    · have : compare k key ≠ .eq := fun e => h (LawfulEqOrd.eq_of_compare e)
      simp only [insertEntry, lookupEntry, h, if_false]
      split <;> simp_all
  | cons entry rest ih =>
    by_cases h : k = key
    · subst h
      simp only [insertEntry, if_true]
      split <;> rename_i c <;> simp [lookupEntry, ReflOrd.compare_self, c, ih]
    · have ne : compare k key ≠ .eq := fun e => h (LawfulEqOrd.eq_of_compare e)
      simp only [h, if_false] at ih ⊢
      rw [insertEntry]
      split <;> rename_i c
      · rw [lookupEntry]
        split <;> rename_i d
        · rw [lookupEntry, TransCmp.lt_trans d c]
        · exact absurd d ne
        · rfl
      · cases LawfulEqOrd.eq_of_compare c
        rw [lookupEntry, lookupEntry]
        split <;> simp_all
      · rw [lookupEntry, lookupEntry, ih]

theorem lookupEntry_eraseEntry [DecidableEq κ] (key k : κ) {entries : List (κ × α)} (sorted : Ascending entries) :
    lookupEntry k (eraseEntry key entries) = if k = key then none else lookupEntry k entries := by
  induction entries with
  | nil => simp [eraseEntry, lookupEntry]
  | cons entry rest ih =>
    obtain ⟨head, tail⟩ := List.pairwise_cons.mp sorted
    specialize ih tail
    rw [eraseEntry]
    split <;> rename_i c
    · by_cases h : k = key
      · subst h; simp [lookupEntry, c]
      · simp [h]
    · cases LawfulEqOrd.eq_of_compare c
      by_cases h : k = entry.1
      · subst h; simpa using lookupEntry_none_of_lt head
      · rw [if_neg h, lookupEntry]
        split <;> rename_i d
        · exact lookupEntry_none_of_lt fun e he => TransCmp.lt_trans d (head e he)
        · exact absurd (LawfulEqOrd.eq_of_compare d) h
        · rfl
    · rw [lookupEntry, ih]
      by_cases h : k = key
      · subst h; simp [c]
      · simp [h, lookupEntry]

theorem get?_insert [DecidableEq κ] (m : SortedMap κ α) (key k : κ) (value : α) :
    (m.insert key value).get? k = if k = key then some value else m.get? k :=
  lookupEntry_insertEntry key k value m.entries

theorem get?_erase [DecidableEq κ] (m : SortedMap κ α) (key k : κ) :
    (m.erase key).get? k = if k = key then none else m.get? k :=
  lookupEntry_eraseEntry key k m.ascending

theorem mem_entries_iff (m : SortedMap κ α) (k : κ) (a : α) :
    (k, a) ∈ m.entries ↔ m.get? k = some a := by
  obtain ⟨entries, sorted⟩ := m
  simp only [get?]
  induction entries with
  | nil => simp [lookupEntry]
  | cons e rest ih =>
    obtain ⟨head, tail⟩ := List.pairwise_cons.mp sorted
    rw [List.mem_cons, ih tail, lookupEntry]
    constructor
    · rintro (rfl | h)
      · simp [ReflOrd.compare_self]
      · have mem := (ih tail).mpr h
        have := OrientedCmp.gt_of_lt (head _ mem)
        simp [this, h]
    · intro h
      split at h <;> rename_i c
      · cases h
      · cases LawfulEqOrd.eq_of_compare c
        cases Option.some.inj h
        exact .inl rfl
      · exact .inr h

theorem ascending_ext {xs ys : List (κ × α)} (hx : Ascending xs) (hy : Ascending ys)
    (same : ∀ k, lookupEntry k xs = lookupEntry k ys) : xs = ys := by
  induction xs generalizing ys with
  | nil =>
    cases ys with
    | nil => rfl
    | cons y ys => simpa [lookupEntry, ReflOrd.compare_self] using same y.1
  | cons x xs ih =>
    cases ys with
    | nil => simpa [lookupEntry, ReflOrd.compare_self] using same x.1
    | cons y ys =>
      obtain ⟨headx, tailx⟩ := List.pairwise_cons.mp hx
      obtain ⟨heady, taily⟩ := List.pairwise_cons.mp hy
      have key : x.1 = y.1 := by
        cases c : compare x.1 y.1 with
        | lt => simpa [lookupEntry, ReflOrd.compare_self, c] using same x.1
        | eq => exact LawfulEqOrd.eq_of_compare c
        | gt => simpa [lookupEntry, ReflOrd.compare_self, OrientedCmp.lt_of_gt c] using same y.1
      have value : x.2 = y.2 := by
        have := same x.1
        simpa [lookupEntry, ReflOrd.compare_self, key] using this
      have head : x = y := Prod.ext key value
      subst head
      refine congrArg (x :: ·) (ih tailx taily fun k => ?_)
      have := same k
      rw [lookupEntry, lookupEntry] at this
      split at this <;> rename_i c
      · rw [lookupEntry_none_of_lt fun e he => TransCmp.lt_trans c (headx e he),
          lookupEntry_none_of_lt fun e he => TransCmp.lt_trans c (heady e he)]
      · cases LawfulEqOrd.eq_of_compare c
        rw [lookupEntry_none_of_lt headx, lookupEntry_none_of_lt heady]
      · exact this

theorem ext_get? {m n : SortedMap κ α} (same : ∀ k, m.get? k = n.get? k) : m = n :=
  ext (ascending_ext m.ascending n.ascending same)

end SortedMap

end RoomLedger
