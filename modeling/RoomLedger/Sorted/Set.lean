import RoomLedger.Sorted.Map

namespace RoomLedger

open Std

structure SortedSet (κ : Type) [Ord κ] where
  map : SortedMap κ Unit

namespace SortedSet

variable {κ : Type} [Ord κ]

def empty : SortedSet κ := ⟨.empty⟩

instance : Inhabited (SortedSet κ) := ⟨empty⟩
instance : EmptyCollection (SortedSet κ) := ⟨empty⟩

instance [DecidableEq κ] : DecidableEq (SortedSet κ) := fun s t =>
  if h : s.map = t.map then isTrue (by cases s; cases t; cases h; rfl)
  else isFalse (h <| congrArg map ·)

def toList (s : SortedSet κ) : List κ := s.map.keys
def size (s : SortedSet κ) : Nat := s.map.size
def isEmpty (s : SortedSet κ) : Bool := s.map.isEmpty
def contains (s : SortedSet κ) (key : κ) : Bool := s.map.contains key
def erase [TransOrd κ] (s : SortedSet κ) (key : κ) : SortedSet κ := ⟨s.map.erase key⟩

variable [TransOrd κ] [LawfulEqOrd κ]

def insert (s : SortedSet κ) (key : κ) : SortedSet κ := ⟨s.map.insert key ()⟩
def ofList (keys : List κ) : SortedSet κ := keys.foldl insert empty

def union (s t : SortedSet κ) : SortedSet κ := t.toList.foldl insert s

theorem contains_insert [DecidableEq κ] (s : SortedSet κ) (key k : κ) :
    (s.insert key).contains k = (decide (k = key) || s.contains k) := by
  simp only [insert, contains, SortedMap.contains, SortedMap.get?_insert]
  by_cases h : k = key <;> simp [h]

theorem contains_erase [DecidableEq κ] (s : SortedSet κ) (key k : κ) :
    (s.erase key).contains k = (!decide (k = key) && s.contains k) := by
  simp only [erase, contains, SortedMap.contains, SortedMap.get?_erase]
  by_cases h : k = key <;> simp [h]

theorem mem_toList_iff (s : SortedSet κ) (k : κ) : k ∈ s.toList ↔ s.contains k = true := by
  simp only [toList, SortedMap.keys, contains, SortedMap.contains, List.mem_map, Option.isSome_iff_exists]
  constructor
  · rintro ⟨⟨k, u⟩, h, rfl⟩; exact ⟨u, (s.map.mem_entries_iff k u).mp h⟩
  · rintro ⟨u, h⟩; exact ⟨(k, u), (s.map.mem_entries_iff k u).mpr h, rfl⟩

end SortedSet

end RoomLedger
