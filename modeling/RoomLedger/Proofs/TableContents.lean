import RoomLedger.Store.Table
import RoomLedger.Proofs.KeyScan

namespace RoomLedger

open Std

namespace Table

variable {α : Type} [Stored α] {t : Table α}

-- The listing of an index is a function of the rows, so it needs no bookkeeping in proofs.
def listing (index : Index α) (rows : SortedMap Nat α) : Listing :=
  .ofList (rows.entries.map fun e => ⟨index.key e.2, e.1⟩)

def listingsOf (rows : SortedMap Nat α) : List Listing := Stored.indices.map (listing · rows)

structure Coherent (t : Table α) : Prop where
  mirrored : t.listings = listingsOf t.rows
  numbered : ∀ n row, t.get? n = some row → Stored.number row = n

-- `row` has a key in a unique index that is the key of `other`.
def Collides (row other : α) : Prop :=
  ∃ index ∈ Stored.indices (α := α), index.unique = true ∧ index.key row = index.key other

structure Sound (t : Table α) : Prop extends Coherent t where
  bounded : ∀ n row, t.get? n = some row → n < t.next
  distinct : ∀ m n row other, t.get? m = some row → t.get? n = some other → Collides row other → m = n

omit [Stored α] in
theorem contains_listing (index : Index α) (rows : SortedMap Nat α) (e : Entry) :
    (listing index rows).contains e = true ↔
      ∃ row, rows.get? e.number = some row ∧ index.key row = e.key := by
  simp only [listing, SortedSet.contains_ofList, decide_eq_true_eq, List.mem_map]
  constructor
  · intro given
    obtain ⟨⟨n, row⟩, member, rfl⟩ := given
    exact ⟨row, (rows.mem_entries_iff n row).mp member, rfl⟩
  · intro given
    obtain ⟨row, found, key⟩ := given
    exact ⟨(e.number, row), (rows.mem_entries_iff _ _).mpr found, by rw [key]⟩

theorem insert_listing (index : Index α) (rows : SortedMap Nat α) (row : α)
    (free : rows.get? (Stored.number row) = none) :
    (listing index rows).insert (entry index row) =
      listing index (rows.insert (Stored.number row) row) := by
  apply SortedSet.ext_contains
  intro e
  rw [Bool.eq_iff_iff, SortedSet.contains_insert, Bool.or_eq_true, decide_eq_true_eq,
    contains_listing, contains_listing]
  simp only [SortedMap.get?_insert]
  -- Entries under the number are that of the row alone, as the number was free.
  by_cases same : e.number = Stored.number row
  · simp only [same, free, if_true]
    constructor
    · intro given
      rcases given with rfl | ⟨other, found, _⟩
      · exact ⟨row, rfl, rfl⟩
      · cases found
    · intro given
      obtain ⟨other, found, key⟩ := given
      cases found
      exact .inl (by cases e; simp_all [entry])
  · simp only [same, if_false]
    constructor
    · intro given
      rcases given with rfl | found
      · exact absurd rfl same
      · exact found
    · exact .inr

theorem erase_listing (index : Index α) (rows : SortedMap Nat α) (row : α)
    (held : rows.get? (Stored.number row) = some row) :
    (listing index rows).erase (entry index row) =
      listing index (rows.erase (Stored.number row)) := by
  apply SortedSet.ext_contains
  intro e
  rw [Bool.eq_iff_iff, SortedSet.contains_erase, Bool.and_eq_true, Bool.not_eq_true',
    decide_eq_false_iff_not, contains_listing, contains_listing]
  simp only [SortedMap.get?_erase]
  by_cases same : e.number = Stored.number row
  · simp only [same, held, if_true]
    constructor
    · intro given
      obtain ⟨different, other, found, key⟩ := given
      cases found
      exact absurd (by cases e; simp_all [entry]) different
    · intro given
      obtain ⟨_, missing, _⟩ := given
      cases missing
  · simp only [same, if_false]
    constructor
    · intro given
      obtain ⟨_, found⟩ := given
      exact found
    · intro found
      refine ⟨?_, found⟩
      intro same
      obtain rfl := same
      exact same rfl

theorem enlist_listings (rows : SortedMap Nat α) (row : α)
    (free : rows.get? (Stored.number row) = none) :
    enlist row (listingsOf rows) = listingsOf (rows.insert (Stored.number row) row) := by
  simp only [enlist, listingsOf, List.zipWith_map_right, List.zipWith_self, insert_listing _ _ _ free]

theorem delist_listings (rows : SortedMap Nat α) (row : α)
    (held : rows.get? (Stored.number row) = some row) :
    delist row (listingsOf rows) = listingsOf (rows.erase (Stored.number row)) := by
  simp only [delist, listingsOf, List.zipWith_map_right, List.zipWith_self, erase_listing _ _ _ held]

omit [Stored α] in
theorem insert_erase (rows : SortedMap Nat α) (n : Nat) (row : α) :
    (rows.erase n).insert n row = rows.insert n row := by
  refine SortedMap.ext_get? fun m => ?_
  simp only [SortedMap.get?_insert, SortedMap.get?_erase]
  split <;> rfl

theorem Coherent.ext {t u : Table α} (left : t.Coherent) (right : u.Coherent) (next : t.next = u.next)
    (rows : ∀ n, t.get? n = u.get? n) : t = u := by
  have rows : t.rows = u.rows := SortedMap.ext_get? rows
  have listings : t.listings = u.listings := by rw [left.mirrored, right.mirrored, rows]
  cases t
  cases u
  simp_all

theorem get?_put (t : Table α) (row : α) (n : Nat) :
    (t.put row).get? n = if n = Stored.number row then some row else t.get? n :=
  SortedMap.get?_insert ..

theorem put_coherent (coherent : t.Coherent) (row : α) : (t.put row).Coherent := by
  constructor
  · unfold put
    dsimp only
    cases held : t.get? (Stored.number row) with
    | none =>
      simp only [coherent.mirrored]
      exact enlist_listings t.rows row held
    | some current =>
      have same := coherent.numbered _ _ held
      have current_held : t.rows.get? (Stored.number current) = some current := by rw [same]; exact held
      simp only [coherent.mirrored]
      rw [delist_listings _ _ current_held, same, enlist_listings, insert_erase]
      simp [SortedMap.get?_erase]
  · intro n other found
    rw [get?_put] at found
    split at found
    · rename_i same
      cases found
      exact same.symm
    · exact coherent.numbered n other found

theorem erased_coherent (coherent : t.Coherent) {n : Nat} {row : α} (held : t.get? n = some row) :
    (⟨t.next, t.rows.erase n, delist row t.listings⟩ : Table α).Coherent := by
  have same := coherent.numbered n row held
  subst same
  constructor
  · change delist row t.listings = _
    rw [coherent.mirrored]
    exact delist_listings t.rows row held
  · intro m other found
    change (t.rows.erase _).get? m = some other at found
    rw [SortedMap.get?_erase] at found
    split at found
    · cases found
    · exact coherent.numbered m other found

theorem zip_listings (rows : SortedMap Nat α) : (Stored.indices (α := α)).zip (listingsOf rows) =
    Stored.indices.map fun index => (index, listing index rows) := by
  simp only [listingsOf, List.zip, List.zipWith_map_right, List.zipWith_self]

theorem clash?_eq_none_iff (coherent : t.Coherent) (row : α) (besides : Option Nat) :
    t.clash? row besides = none ↔
      ∀ n other, t.get? n = some other → Collides row other → some n = besides := by
  rw [clash?, coherent.mirrored, zip_listings, List.findSome?_map, List.findSome?_eq_none_iff]
  simp only [Function.comp_apply, scan_key]
  constructor
  · intro free n other found ⟨index, declared, unique, same⟩
    have none := free index declared
    rw [if_pos unique, Option.map_eq_none_iff, List.find?_eq_none] at none
    have member : (⟨index.key row, n⟩ : Entry) ∈
        (listing index t.rows).toList.filter (·.key == index.key row) := by
      rw [List.mem_filter, SortedSet.mem_toList_iff, contains_listing]
      exact ⟨⟨other, found, same.symm⟩, by simp⟩
    simpa using none _ member
  · intro free index declared
    split
    · rename_i unique
      rw [Option.map_eq_none_iff, List.find?_eq_none]
      intro e member
      rw [List.mem_filter, SortedSet.mem_toList_iff, contains_listing, beq_iff_eq] at member
      obtain ⟨⟨other, found, key⟩, same⟩ := member
      simp [free e.number other found ⟨index, declared, unique, same.symm.trans key.symm⟩]
    · rfl

theorem Collides.symm {row other : α} (collides : Collides row other) : Collides other row := by
  obtain ⟨index, declared, unique, same⟩ := collides
  exact ⟨index, declared, unique, same.symm⟩

-- `after` is a sound table that differs from `t` in what it holds at `n`, and in nothing else.
structure Sets (t : Table α) (n : Nat) (held : Option α) (after : Table α) : Prop where
  sound : after.Sound
  get?_eq : ∀ m, after.get? m = if m = n then held else t.get? m

theorem get?_next (sound : t.Sound) : t.get? t.next = none := by
  cases found : t.get? t.next with
  | none => rfl
  | some row => exact absurd (sound.bounded _ _ found) (Nat.lt_irrefl _)

-- A row may be put where it collides with nothing but what it takes the place of.
theorem put_sets (sound : t.Sound) {row : α} {next : Nat} (grown : t.next ≤ next)
    (small : Stored.number row < next)
    (free : ∀ n other, t.get? n = some other → Collides row other → n = Stored.number row) :
    t.Sets (Stored.number row) (some row) { t.put row with next := next } := by
  have found : ∀ m, ({ t.put row with next := next } : Table α).get? m =
      if m = Stored.number row then some row else t.get? m := t.get?_put row
  refine ⟨⟨⟨(put_coherent sound.toCoherent row).mirrored, (put_coherent sound.toCoherent row).numbered⟩,
    ?_, ?_⟩, found⟩
  · intro m other held
    rw [found] at held
    split at held
    · rename_i same
      subst same
      exact small
    · exact Nat.lt_of_lt_of_le (sound.bounded m other held) grown
  · intro m n left right leftHeld rightHeld collides
    rw [found] at leftHeld rightHeld
    split at leftHeld <;> split at rightHeld
    · rename_i one two
      rw [one, two]
    · rename_i one _
      cases leftHeld
      rw [one, free n right rightHeld collides]
    · rename_i _ two
      cases rightHeld
      rw [two, free m left leftHeld collides.symm]
    · exact sound.distinct m n left right leftHeld rightHeld collides

theorem create_sets (sound : t.Sound) {fill : α → α} {row : α} {after : Table α}
    (created : t.create fill = .ok (row, after)) :
    Stored.number row = t.next ∧ row = Stored.withNumber (fill Stored.blank) t.next ∧
      t.Sets t.next (some row) after ∧ after.next = t.next + 1 := by
  unfold create at created
  dsimp only at created
  split at created
  · cases created
  · rename_i free
    cases created
    have number := Stored.number_withNumber (fill Stored.blank) t.next
    have free := (clash?_eq_none_iff sound.toCoherent _ _).mp free
    have sets := put_sets sound (Nat.le_succ t.next) (by rw [number]; exact Nat.lt_succ_self _)
      fun n other found collides => nomatch free n other found collides
    rw [number] at sets
    exact ⟨number, rfl, sets, rfl⟩

theorem modify_sets (sound : t.Sound) {n : Nat} {change : α → α} {before : α} {after : Table α}
    (modified : t.modify n change = .ok (before, after)) :
    t.get? n = some before ∧ t.Sets n (some (Stored.withNumber (change before) n)) after ∧
      after.next = t.next := by
  unfold modify at modified
  split at modified
  · cases modified
  · rename_i held found
    dsimp only at modified
    split at modified
    · cases modified
    · rename_i free
      cases modified
      have number := Stored.number_withNumber (change before) n
      have free := (clash?_eq_none_iff sound.toCoherent _ _).mp free
      have sets := put_sets sound (Nat.le_refl t.next) (by rw [number]; exact sound.bounded n before found)
        fun m other held collides => by rw [number]; exact Option.some.inj (free m other held collides)
      rw [number] at sets
      exact ⟨found, sets, rfl⟩

theorem remove_sets (sound : t.Sound) {n : Nat} {row : α} {after : Table α}
    (removed : t.remove n = .ok (row, after)) :
    t.get? n = some row ∧ t.Sets n none after ∧ after.next = t.next := by
  unfold remove at removed
  split at removed
  · cases removed
  · rename_i held found
    cases removed
    have gone : ∀ m, (⟨t.next, t.rows.erase n, delist row t.listings⟩ : Table α).get? m =
        if m = n then none else t.get? m := SortedMap.get?_erase t.rows n
    have kept : ∀ m other, (⟨t.next, t.rows.erase n, delist row t.listings⟩ : Table α).get? m =
        some other → t.get? m = some other := by
      intro m other held
      rw [gone] at held
      split at held
      · cases held
      · exact held
    refine ⟨found, ⟨⟨erased_coherent sound.toCoherent found, ?_, ?_⟩, gone⟩, rfl⟩
    · exact fun m other held => sound.bounded m other (kept m other held)
    · exact fun m k left right leftHeld rightHeld =>
        sound.distinct m k left right (kept m left leftHeld) (kept k right rightHeld)

theorem empty_sound : (empty : Table α).Sound := by
  refine ⟨⟨rfl, ?_⟩, ?_, ?_⟩
  · intro n row found; cases found
  · intro n row found; cases found
  · intro m n row other found; cases found

end Table

end RoomLedger
