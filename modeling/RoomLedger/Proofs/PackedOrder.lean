import RoomLedger.Proofs.LenientReading
import RoomLedger.Proofs.RecordScans

namespace RoomLedger.ObjectId

-- The parts stand in a word in the order in which ids are compared.
theorem pack_lt_iff {a b : ObjectId} (fits : a.number ≤ maxNumber) (fits' : b.number ≤ maxNumber) :
    a.pack < b.pack ↔ a.Before b := by
  have small : a.number < 2 ^ 48 := Nat.lt_succ_of_le fits
  have small' : b.number < 2 ^ 48 := Nat.lt_succ_of_le fits'
  have type := a.type.toNat_lt
  have type' := b.type.toNat_lt
  rw [UInt64.lt_iff_toNat_lt, toNat_pack, toNat_pack, Nat.mod_eq_of_lt small, Nat.mod_eq_of_lt small', Before,
    UInt8.lt_iff_toNat_lt, UInt8.lt_iff_toNat_lt, ← UInt8.toNat_inj, ← UInt8.toNat_inj]
  omega

theorem number_unpack (word : UInt64) : (unpack word).number ≤ maxNumber :=
  Nat.le_of_lt_succ (Nat.mod_lt _ (Nat.succ_pos maxNumber))

theorem unpack_eq_iff {id : ObjectId} (fits : id.number ≤ maxNumber) (word : UInt64) :
    unpack word = id ↔ word = id.pack := by
  constructor
  · rintro rfl
    exact (pack_unpack word).symm
  · rintro rfl
    exact unpack_pack id fits

theorem ascending_words {ids : SortedSet ObjectId} (fit : ∀ id ∈ ids.toList, id.number ≤ maxNumber) :
    (ids.toList.map pack).Pairwise (· < ·) := by
  refine List.pairwise_map.mpr (ids.ascending_toList.imp_of_mem fun first second before => ?_)
  exact (pack_lt_iff (fit _ first) (fit _ second)).mpr (compare_eq_lt.mp before)

theorem write_words (ids : SortedSet ObjectId) : Wire.write ids = Wire.write (ids.toList.map pack) := by
  change Wire.writeCount ids.toList.length ++ _ = Wire.writeCount (ids.toList.map pack).length ++ _
  rw [List.length_map, List.flatMap_map]
  rfl

theorem exists_word {bytes : List UInt8} (length : bytes.length = 8) : ∃ word : UInt64, Wire.write word = bytes := by
  have room : Wire.ofLowBytes bytes < 2 ^ 64 := by
    have bound := Wire.ofLowBytes_lt bytes
    rwa [length] at bound
  refine ⟨UInt64.ofNat (Wire.ofLowBytes bytes), ?_⟩
  change Wire.lowBytes 8 _ = bytes
  rw [UInt64.toNat_ofNat_of_lt' room, ← length, Wire.lowBytes_ofLowBytes]

theorem write_word_inj {word other : UInt64} (same : Wire.write word = Wire.write other) : word = other := by
  have reads : Wire.Reads Wire.read (Wire.write word) word := Faithful.reads word rfl
  exact reads.unambiguous (Faithful.reads other rfl) (same ▸ List.prefix_rfl)

-- Ids whose number fits and words of 64 bits are one for one, and an id comes before another one if
-- its word is the lesser.
theorem packing_is_order_isomorphism :
    (∀ id : ObjectId, id.number ≤ maxNumber → unpack id.pack = id) ∧
    (∀ a b : ObjectId, a.number ≤ maxNumber → b.number ≤ maxNumber →
      (compare a b = .lt ↔ a.Before b) ∧ (a.Before b ↔ a.pack < b.pack)) ∧
    (∀ word : UInt64, (unpack word).pack = word ∧ (unpack word).number ≤ maxNumber) ∧
    (∀ ids : SortedSet ObjectId, (∀ id ∈ ids.toList, id.number ≤ maxNumber) →
      ∃ words : List UInt64, Wire.write ids = Wire.write words ∧ words.map unpack = ids.toList ∧
        words.Pairwise (· < ·)) ∧
    (∀ bytes : List UInt8, bytes.length = 8 → ∃ id : ObjectId, id.number ≤ maxNumber ∧
      (∀ rest, Wire.read (bytes ++ rest) = .ok (id, rest)) ∧
      ∀ other : ObjectId, other.number ≤ maxNumber → (Wire.write other = bytes ↔ other = id)) := by
  refine ⟨fun id fits => unpack_pack id fits, ?_, fun word => ⟨pack_unpack word, number_unpack word⟩, ?_, ?_⟩
  · exact fun a b fits fits' => ⟨compare_eq_lt, (pack_lt_iff fits fits').symm⟩
  · intro ids fit
    refine ⟨ids.toList.map pack, write_words ids, ?_, ascending_words fit⟩
    rw [List.map_map]
    exact (List.map_congr_left fun id listed => unpack_pack id (fit id listed)).trans (List.map_id _)
  · intro bytes length
    obtain ⟨word, rfl⟩ := exists_word length
    refine ⟨unpack word, number_unpack word, (Faithful.reads word rfl).map unpack, fun other fits => ?_⟩
    have written : Wire.write other = Wire.write word ↔ other.pack = word :=
      ⟨write_word_inj, congrArg Wire.write⟩
    rw [written, eq_comm, ← unpack_eq_iff fits, eq_comm]

-- The largest number of a type comes right before the next type.
def neighbours : SortedSet ObjectId := .ofList [⟨1, 3, 0⟩, ⟨1, 2, maxNumber⟩]

theorem packing_is_order_isomorphism_neighbours :
    unpack (pack ⟨1, 2, maxNumber⟩) = ⟨1, 2, maxNumber⟩ ∧
    pack ⟨1, 2, maxNumber⟩ < pack ⟨1, 3, 0⟩ ∧
    (∃ words : List UInt64, Wire.write neighbours = Wire.write words ∧ words.map unpack = neighbours.toList ∧
      words.Pairwise (· < ·)) ∧
    ∃ id : ObjectId, Wire.write id = [255, 255, 255, 255, 255, 255, 2, 1] := by
  obtain ⟨packed, ordered, -, sets, words⟩ := packing_is_order_isomorphism
  refine ⟨packed _ (Nat.le_refl _), ?_, sets neighbours (by decide +kernel), ?_⟩
  · exact (ordered ⟨1, 2, maxNumber⟩ ⟨1, 3, 0⟩ (Nat.le_refl _) (Nat.zero_le _)).2.mp (by unfold Before; decide)
  · obtain ⟨id, fits, -, only⟩ := words [255, 255, 255, 255, 255, 255, 2, 1] rfl
    exact ⟨id, (only id fits).mpr rfl⟩

end RoomLedger.ObjectId
