import RoomLedger.Store.Lookup
import RoomLedger.Proofs.StoredRecords

namespace RoomLedger

namespace Table

variable {α : Type} [Stored α] {t : Table α} {name : String} {index : Index α}

def Declared (name : String) (index : Index α) : Prop :=
  (Stored.indices (α := α)).find? (fun index => index.name == name) = some index

theorem Declared.mem (declared : Declared name index) : index ∈ Stored.indices :=
  List.mem_of_find?_eq_some declared

theorem indexed_eq (coherent : t.Coherent) (declared : Declared name index) :
    t.indexed name = .ok (index, listing index t.rows) := by
  unfold indexed
  rw [coherent.mirrored, zip_listings, List.find?_map]
  have found : (Stored.indices (α := α)).find? ((fun pair : Index α × Listing => pair.1.name == name) ∘
      fun index => (index, listing index t.rows)) = some index := declared
  rw [found]
  rfl

omit [Stored α] in
-- The numbers that are listed, one for each record, although the listing is one of keys.
theorem nodup_numbers (index : Index α) (rows : SortedMap Nat α) :
    ((listing index rows).toList.map Entry.number).Nodup := by
  refine List.pairwise_map.mpr ((listing index rows).nodup_toList.imp_of_mem ?_)
  intro a b listed beside different same
  rw [SortedSet.mem_toList_iff, contains_listing] at listed beside
  obtain ⟨row, found, key⟩ := listed
  obtain ⟨other, found', key'⟩ := beside
  rw [← same, found] at found'
  cases found'
  exact different (by cases a; cases b; simp_all)

theorem startingWith_spec (coherent : t.Coherent) (declared : Declared name index) (start : Key) :
    ∃ rows, t.startingWith name start = .ok rows ∧ (rows.map Stored.number).Nodup ∧
      ∀ row, row ∈ rows ↔ t.get? (Stored.number row) = some row ∧ start.isPrefixOf (index.key row) = true := by
  refine ⟨_, by unfold startingWith; rw [indexed_eq coherent declared]; rfl, ?_, ?_⟩
  · simp only [scan_start]
    refine List.pairwise_map.mpr (List.pairwise_filterMap.mpr ?_)
    apply ((List.pairwise_map.mp (nodup_numbers index t.rows)).filter _).imp
    intro a b different row found other found' same
    rw [coherent.numbered _ row found, coherent.numbered _ other found'] at same
    exact different same
  · intro row
    simp only [scan_start, List.mem_filterMap, List.mem_filter, SortedSet.mem_toList_iff, contains_listing]
    constructor
    · intro given
      obtain ⟨e, ⟨⟨other, stored, key⟩, fits⟩, found⟩ := given
      have same : other = row := Option.some.inj (stored.symm.trans found)
      subst same
      rw [coherent.numbered _ other found]
      exact ⟨found, by rw [key]; exact fits⟩
    · intro given
      obtain ⟨found, fits⟩ := given
      exact ⟨⟨index.key row, Stored.number row⟩, ⟨⟨row, found, rfl⟩, fits⟩, found⟩

theorem withKey_spec (coherent : t.Coherent) (declared : Declared name index) (key : Key) :
    ∃ rows, t.withKey name key = .ok rows ∧ (rows.map Stored.number).Nodup ∧
      ∀ row, row ∈ rows ↔ t.get? (Stored.number row) = some row ∧ index.key row = key := by
  obtain ⟨rows, run, nodup, member⟩ := startingWith_spec coherent declared key
  refine ⟨rows.filter fun row => index.key row == key, ?_, ?_, ?_⟩
  · unfold withKey
    rw [indexed_eq coherent declared, run]
    rfl
  · exact List.pairwise_map.mpr ((List.pairwise_map.mp nodup).filter _)
  · intro row
    rw [List.mem_filter, member, beq_iff_eq]
    constructor
    · intro given
      obtain ⟨⟨found, -⟩, same⟩ := given
      exact ⟨found, same⟩
    · intro given
      obtain ⟨found, rfl⟩ := given
      exact ⟨⟨found, List.isPrefixOf_iff_prefix.mpr (List.prefix_refl _)⟩, rfl⟩

theorem find_spec (coherent : t.Coherent) (declared : Declared name index) (key : Key) :
    ∃ found, t.find name key = .ok found ∧
      (∀ row, found = some row → t.get? (Stored.number row) = some row ∧ index.key row = key) ∧
      (found = none → ∀ n row, t.get? n = some row → index.key row ≠ key) := by
  obtain ⟨rows, run, nodup, member⟩ := withKey_spec coherent declared key
  refine ⟨rows.head?, by unfold find; rw [run]; rfl, ?_, ?_⟩
  · intro row first
    exact (member row).mp (List.mem_of_head? first)
  · intro none n row found same
    have listed : row ∈ rows := (member row).mpr ⟨by rw [coherent.numbered n row found]; exact found, same⟩
    rw [List.head?_eq_none_iff.mp none] at listed
    cases listed

end Table

namespace Database

variable {db : Database} {k : Kind} {name : String} {index : Index k.Row}

theorem lookUp_eq {α : Type} {t : Tracked k.Row} (held : db.tables.get k = some t)
    (look : Table k.Row → Except TableFault α) :
    db.lookUp k look = (look t.table).mapError (.ofTable k) := by
  unfold lookUp table tracked
  rw [held]
  rfl

theorem lookUp_none {α : Type} (missing : db.tables.get k = none)
    (look : Table k.Row → Except TableFault α) : db.lookUp k look = .error (.unknownType k) := by
  unfold lookUp table tracked
  rw [missing]
  rfl

theorem row?_of_missing (missing : db.tables.get k = none) (n : Nat) : db.row? k n = none := by
  rw [row?, missing]
  rfl

-- No more is known of a look-up than what it finds, whether the kind is registered or not.
theorem found_spec (sound : db.Sound) (declared : Table.Declared name index) (key : Key) :
    (∀ row, found (db.findBy k name key) = some row →
      db.row? k (Stored.number row) = some row ∧ index.key row = key) ∧
    (found (db.findBy k name key) = none → ∀ n row, db.row? k n = some row → index.key row ≠ key) := by
  cases held : db.tables.get k with
  | none =>
    rw [findBy, lookUp_none held]
    refine ⟨fun row impossible => (nomatch impossible), fun _ n row stored => ?_⟩
    rw [row?_of_missing held] at stored
    cases stored
  | some t =>
    obtain ⟨result, run, some, none⟩ := Table.find_spec (sound.table k t held).toCoherent declared key
    rw [findBy, lookUp_eq held, run]
    simp only [row?_of_held held]
    exact ⟨some, none⟩

theorem listed_withKey_spec (sound : db.Sound) (declared : Table.Declared name index) (key : Key) :
    ((listed (db.withKey k name key)).map Stored.number).Nodup ∧
      ∀ row, row ∈ listed (db.withKey k name key) ↔
        db.row? k (Stored.number row) = some row ∧ index.key row = key := by
  cases held : db.tables.get k with
  | none =>
    rw [withKey, lookUp_none held]
    refine ⟨List.nodup_nil, fun row => ⟨fun impossible => (nomatch impossible), fun ⟨stored, _⟩ => ?_⟩⟩
    rw [row?_of_missing held] at stored
    cases stored
  | some t =>
    obtain ⟨rows, run, nodup, member⟩ := Table.withKey_spec (sound.table k t held).toCoherent declared key
    rw [withKey, lookUp_eq held, run]
    simp only [row?_of_held held]
    exact ⟨nodup, member⟩

theorem listed_startingWith_spec (sound : db.Sound) (declared : Table.Declared name index) (start : Key) :
    ((listed (db.startingWith k name start)).map Stored.number).Nodup ∧
      ∀ row, row ∈ listed (db.startingWith k name start) ↔
        db.row? k (Stored.number row) = some row ∧ start.isPrefixOf (index.key row) = true := by
  cases held : db.tables.get k with
  | none =>
    rw [startingWith, lookUp_none held]
    refine ⟨List.nodup_nil, fun row => ⟨fun impossible => (nomatch impossible), fun ⟨stored, _⟩ => ?_⟩⟩
    rw [row?_of_missing held] at stored
    cases stored
  | some t =>
    obtain ⟨rows, run, nodup, member⟩ :=
      Table.startingWith_spec (sound.table k t held).toCoherent declared start
    rw [startingWith, lookUp_eq held, run]
    simp only [row?_of_held held]
    exact ⟨nodup, member⟩

end Database

end RoomLedger
