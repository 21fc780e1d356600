import RoomLedger.Proofs.UniqueLookups

namespace RoomLedger

namespace Kind

theorem id_inj {k j : Kind} {m n : Nat} : k.id m = j.id n ↔ k = j ∧ m = n := by
  constructor
  · intro same
    have number : m = n := congrArg ObjectId.number same
    refine ⟨eq_of_owns ((k.owns_iff (k.id m)).mpr rfl) ?_, number⟩
    rw [same]
    exact (j.owns_iff (j.id n)).mpr rfl
  · intro given
    obtain ⟨rfl, rfl⟩ := given
    rfl

theorem ofId?_eq_some_iff {k : Kind} {id : ObjectId} : ofId? id = some k ↔ id = k.id id.number := by
  rw [← owns_iff]
  constructor
  · intro found
    exact List.find?_some (p := fun j : Kind => j.owns id) found
  · intro owned
    cases found : ofId? id with
    | none => exact absurd owned (List.find?_eq_none.mp found k (mem_all k))
    | some j => rw [eq_of_owns (List.find?_some (p := fun j : Kind => j.owns id) found) owned]

theorem nodup_all : all.Nodup := by decide

def idsOf (numbers : Kind → List Nat) : List ObjectId := all.flatMap fun k => (numbers k).map k.id

theorem mem_idsOf {numbers : Kind → List Nat} {id : ObjectId} :
    id ∈ idsOf numbers ↔ ∃ k n, id = k.id n ∧ n ∈ numbers k := by
  simp only [idsOf, List.mem_flatMap, List.mem_map]
  constructor
  · intro given
    obtain ⟨k, -, n, member, rfl⟩ := given
    exact ⟨k, n, rfl, member⟩
  · intro given
    obtain ⟨k, n, rfl, member⟩ := given
    exact ⟨k, mem_all k, n, member, rfl⟩

theorem id_mem_idsOf {numbers : Kind → List Nat} {k : Kind} {n : Nat} :
    k.id n ∈ idsOf numbers ↔ n ∈ numbers k := by
  rw [mem_idsOf]
  constructor
  · intro given
    obtain ⟨j, m, same, member⟩ := given
    obtain ⟨rfl, rfl⟩ := id_inj.mp same
    exact member
  · exact fun member => ⟨k, n, rfl, member⟩

theorem nodup_idsOf {numbers : Kind → List Nat} (each : ∀ k, (numbers k).Nodup) : (idsOf numbers).Nodup := by
  refine List.pairwise_flatMap.mpr ⟨fun k _ => ?_, nodup_all.imp fun different => ?_⟩
  · refine List.pairwise_map.mpr ((each k).imp fun different same => ?_)
    exact different (id_inj.mp same).2
  · intro id member other beside same
    obtain ⟨m, -, rfl⟩ := List.mem_map.mp member
    obtain ⟨n, -, rfl⟩ := List.mem_map.mp beside
    exact different (id_inj.mp same).1

end Kind

namespace Database

variable {db : Database} {k : Kind} {n : Nat} {id : ObjectId}

theorem findAny_id (db : Database) (k : Kind) (n : Nat) :
    db.findAny (k.id n) = (db.row? k n).map (AnyRow.mk k) := by
  have kind : Kind.ofId? (k.id n) = some k := Kind.ofId?_eq_some_iff.mpr rfl
  unfold findAny row?
  rw [kind]
  change ((db.tables.get k).bind fun t => (t.table.get? n).bind fun row => some (AnyRow.mk k row)) = _
  cases db.tables.get k with
  | none => rfl
  | some t => simp only [Option.bind_some]; cases t.table.get? n <;> rfl

theorem findAny_eq_some_iff {r : AnyRow} :
    db.findAny id = some r ↔ ∃ n, id = r.kind.id n ∧ db.row? r.kind n = some r.row := by
  constructor
  · intro found
    cases kind : Kind.ofId? id with
    | none => unfold findAny at found; rw [kind] at found; cases found
    | some k =>
      have same := Kind.ofId?_eq_some_iff.mp kind
      rw [same, findAny_id, Option.map_eq_some_iff] at found
      obtain ⟨row, stored, rfl⟩ := found
      exact ⟨id.number, same, stored⟩
  · intro given
    obtain ⟨n, rfl, stored⟩ := given
    rw [findAny_id, stored]
    rfl

theorem nodup_ids (sound : db.Sound) : (db.all.map AnyRow.id).Nodup := by
  have ids : db.all.map AnyRow.id = Kind.idsOf fun k => (db.rows k).map Stored.number := by
    simp only [all, Kind.idsOf, List.map_flatMap, List.map_map]
    rfl
  rw [ids]
  exact Kind.nodup_idsOf fun k => nodup_numbers sound k

end Database

end RoomLedger
