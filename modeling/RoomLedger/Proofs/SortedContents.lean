import RoomLedger.Sorted.Set

namespace RoomLedger

open Std

namespace SortedMap

variable {κ α σ γ : Type} [Ord κ]

theorem ascending_keys (m : SortedMap κ α) : m.keys.Pairwise fun a b => compare a b = .lt :=
  List.pairwise_map.mpr m.ascending

theorem contains_iff (m : SortedMap κ α) (k : κ) : m.contains k = true ↔ ∃ a, m.get? k = some a := by
  simp only [contains, Option.isSome_iff_exists]

theorem nodup_keys [LawfulEqOrd κ] (m : SortedMap κ α) : m.keys.Nodup := by
  apply m.ascending_keys.imp
  intro a b before same
  subst same
  simp [ReflOrd.compare_self] at before

variable [TransOrd κ] [LawfulEqOrd κ]

theorem mem_values_iff (m : SortedMap κ α) (a : α) : a ∈ m.values ↔ ∃ k, m.get? k = some a := by
  simp only [values, List.mem_map]
  constructor
  · intro given
    obtain ⟨⟨k, a⟩, member, rfl⟩ := given
    exact ⟨k, (m.mem_entries_iff k a).mp member⟩
  · intro given
    obtain ⟨k, found⟩ := given
    exact ⟨(k, a), (m.mem_entries_iff k a).mpr found, rfl⟩

theorem mem_keys_iff (m : SortedMap κ α) (k : κ) : k ∈ m.keys ↔ ∃ a, m.get? k = some a := by
  simp only [keys, List.mem_map]
  constructor
  · intro given
    obtain ⟨⟨k, a⟩, member, rfl⟩ := given
    exact ⟨a, (m.mem_entries_iff k a).mp member⟩
  · intro given
    obtain ⟨a, found⟩ := given
    exact ⟨(k, a), (m.mem_entries_iff k a).mpr found, rfl⟩

theorem get?_insertNew [DecidableEq κ] (m : SortedMap κ α) (key k : κ) (value : α) :
    (m.insertNew key value).get? k =
      if k = key then some ((m.get? key).getD value) else m.get? k := by
  unfold insertNew
  split
  · rename_i taken
    obtain ⟨old, found⟩ := (m.contains_iff key).mp taken
    by_cases same : k = key
    · subst same; simp [found]
    · simp [same]
  · rename_i free
    have missing : m.get? key = none := by simpa [contains] using free
    simp [get?_insert, missing]

-- What a fold leaves at a key is decided by the one entry that the map has there.
theorem foldl_entries_local (m : SortedMap κ α) (step : σ → κ × α → σ) (view : σ → κ → γ)
    (frame : ∀ s e k, k ≠ e.1 → view (step s e) k = view s k)
    (own : ∀ s s' e, view s e.1 = view s' e.1 → view (step s e) e.1 = view (step s' e) e.1)
    (start : σ) (k : κ) :
    view (m.entries.foldl step start) k = match m.get? k with
      | some a => view (step start (k, a)) k
      | none => view start k := by
  obtain ⟨entries, sorted⟩ := m
  simp only [get?]
  induction entries generalizing start with
  | nil => rfl
  | cons e rest ih =>
    obtain ⟨head, tail⟩ := List.pairwise_cons.mp sorted
    rw [List.foldl_cons, ih (step start e) tail, lookupEntry]
    -- The entries are sorted, so below the first key and at it there is nothing in the rest.
    cases order : compare k e.1 with
    | lt =>
      have absent : lookupEntry k rest = none :=
        lookupEntry_none_of_lt fun later member => TransCmp.lt_trans order (head later member)
      have other : k ≠ e.1 := by rintro rfl; simp [ReflOrd.compare_self] at order
      rw [absent]
      exact frame _ _ _ other
    | eq =>
      cases LawfulEqOrd.eq_of_compare order
      rw [lookupEntry_none_of_lt head]
    | gt =>
      have other : k ≠ e.1 := by rintro rfl; simp [ReflOrd.compare_self] at order
      cases found : lookupEntry k rest with
      | none => exact frame _ _ _ other
      | some a => exact own _ _ (k, a) (frame _ _ _ other)

theorem get?_foldl_insert {entries : List (κ × α)} (nodup : (entries.map Prod.fst).Nodup) (m : SortedMap κ α)
    {k : κ} {a : α} : (entries.foldl (fun m e => m.insert e.1 e.2) m).get? k = some a ↔
      (k, a) ∈ entries ∨ k ∉ entries.map Prod.fst ∧ m.get? k = some a := by
  classical
  induction entries generalizing m with
  | nil => simp
  | cons e rest ih =>
    obtain ⟨fresh, unique⟩ := List.nodup_cons.mp nodup
    rw [List.foldl_cons, ih unique, get?_insert, List.map_cons, List.mem_cons, List.mem_cons, not_or]
    by_cases same : k = e.1
    · subst same
      have apart : (e.1, a) ∉ rest := fun listed => fresh (List.mem_map.mpr ⟨_, listed, rfl⟩)
      simp [apart, fresh, Prod.ext_iff, eq_comm]
    · have other : (k, a) ≠ e := fun whole => same (congrArg Prod.fst whole)
      simp [same, other]

theorem get?_ofList {entries : List (κ × α)} (nodup : (entries.map Prod.fst).Nodup) {k : κ} {a : α} :
    (ofList entries).get? k = some a ↔ (k, a) ∈ entries := by
  rw [ofList, get?_foldl_insert nodup]
  simp

theorem ofList_entries (m : SortedMap κ α) : ofList m.entries = m := by
  classical
  apply ext_get?
  intro k
  rw [ofList, m.foldl_entries_local (fun m e => m.insert e.1 e.2) get?]
  · cases found : m.get? k with
    | none => rfl
    | some a => simp [get?_insert]
  · intro m e k other
    simp [get?_insert, other]
  · intro m n e _
    simp [get?_insert]

end SortedMap

namespace SortedSet

variable {κ : Type} [Ord κ]

@[simp] theorem contains_empty (k : κ) : (empty : SortedSet κ).contains k = false := rfl

theorem ascending_toList (s : SortedSet κ) : s.toList.Pairwise fun a b => compare a b = .lt :=
  s.map.ascending_keys

theorem nodup_toList [LawfulEqOrd κ] (s : SortedSet κ) : s.toList.Nodup := s.map.nodup_keys

variable [TransOrd κ] [LawfulEqOrd κ]

theorem ext_contains {s t : SortedSet κ} (same : ∀ k, s.contains k = t.contains k) : s = t := by
  obtain ⟨s⟩ := s
  obtain ⟨t⟩ := t
  refine congrArg mk (SortedMap.ext_get? ?_)
  intro k
  have agree := same k
  simp only [contains, SortedMap.contains] at agree
  cases left : s.get? k <;> cases right : t.get? k <;> simp_all

variable [DecidableEq κ]

theorem contains_foldl_insert (keys : List κ) (s : SortedSet κ) (k : κ) :
    (keys.foldl insert s).contains k = (decide (k ∈ keys) || s.contains k) := by
  induction keys generalizing s with
  | nil => simp
  | cons key rest ih =>
    rw [List.foldl_cons, ih, contains_insert]
    by_cases same : k = key <;> simp [same]

theorem contains_ofList (keys : List κ) (k : κ) : (ofList keys).contains k = decide (k ∈ keys) := by
  simp [ofList, contains_foldl_insert]

omit [DecidableEq κ] in
theorem ofList_toList (s : SortedSet κ) : ofList s.toList = s := by
  classical
  apply ext_contains
  intro k
  rw [contains_ofList, Bool.eq_iff_iff, decide_eq_true_iff]
  exact s.mem_toList_iff k

theorem contains_union (s t : SortedSet κ) (k : κ) :
    (s.union t).contains k = (s.contains k || t.contains k) := by
  rw [union, contains_foldl_insert, Bool.or_comm]
  congr 1
  rw [Bool.eq_iff_iff, decide_eq_true_iff]
  exact t.mem_toList_iff k

end SortedSet

end RoomLedger
