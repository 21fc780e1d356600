import RoomLedger.Chain.Config
import RoomLedger.Proofs.WriteSteps

namespace RoomLedger

open Database

structure Place where
  kind : Kind
  number : Nat

def RecordId.place {k : Kind} (id : RecordId k) : Place := ⟨k, id.number⟩

theorem RecordId.place_inj {k : Kind} {r s : RecordId k} : r.place = s.place ↔ r = s := by
  obtain ⟨m⟩ := r
  obtain ⟨n⟩ := s
  simp [place]

theorem RecordId.place_ne {j k : Kind} (other : j ≠ k) (r : RecordId j) (s : RecordId k) :
    r.place ≠ s.place :=
  fun same => other (congrArg Place.kind same)

namespace Kind

def references : (k : Kind) → k.Row → List Place
  | account, r => [r.registrar.place]
  | asset, r => [r.issuer.place, r.supply.place]
  | eventGroup, r => [r.sport.place]
  | room, r => [r.owner.place]
  | participant, r => [r.room.place, r.account.place]
  | epochKey, r => [r.room.place, r.account.place]
  | balance, r => [r.owner.place, r.asset.place]
  | _, _ => []

def referred : List Kind := [account, asset, sport, room, supply]

def WellFormed (config : Config) : (k : Kind) → k.Row → Prop
  | account, r => Operation.isAccountName r.name = true
  | sport, r => r.name.isWellFormed = true
  | eventGroup, r => r.name.isWellFormed = true
  | room, r => r.name.isEmpty = false ∧ r.name.utf8ByteSize ≤ min 256 config.maxRoomName.toNat ∧
      r.roomKey.isEmpty = false
  | participant, r => r.contentKey.isEmpty = false
  | epochKey, r => r.contentKey.isEmpty = false
  | _, _ => True

end Kind

namespace Database

variable {config : Config} {db mid after : Database} {k : Kind} {n : Nat} {row : k.Row} {place : Place}

def Stores (db : Database) (place : Place) : Prop := ∃ row, db.row? place.kind place.number = some row

-- Every record that is referred to is stored, and every stored record is well formed.
structure InOrder (config : Config) (db : Database) : Prop where
  referred : ∀ k n (row : k.Row), db.row? k n = some row → ∀ place ∈ k.references row, db.Stores place
  formed : ∀ k n (row : k.Row), db.row? k n = some row → k.WellFormed config row

theorem Stores.congr (stores : db.Stores place) (rows : ∀ k n, after.row? k n = db.row? k n) :
    after.Stores place := by
  obtain ⟨row, stored⟩ := stores
  exact ⟨row, by rw [rows]; exact stored⟩

theorem InOrder.congr (inOrder : db.InOrder config) (rows : ∀ k n, after.row? k n = db.row? k n) :
    after.InOrder config := by
  refine ⟨fun k n row stored place member => ?_, fun k n row stored => ?_⟩
  · rw [rows] at stored
    exact (inOrder.referred k n row stored place member).congr rows
  · rw [rows] at stored
    exact inOrder.formed k n row stored

theorem Stores.put (stores : db.Stores place) (puts : db.Puts k n (some row) after) : after.Stores place := by
  obtain ⟨j, m⟩ := place
  obtain ⟨old, stored⟩ := stores
  by_cases kind : j = k
  · subst kind
    by_cases number : m = n
    · exact ⟨row, by rw [puts.rows, if_pos number]⟩
    · exact ⟨old, by rw [puts.rows, if_neg number]; exact stored⟩
  · exact ⟨old, by rw [puts.row?_other kind]; exact stored⟩

theorem Puts.stores (puts : db.Puts k n (some row) after) : after.Stores ⟨k, n⟩ :=
  ⟨row, by rw [puts.rows, if_pos rfl]⟩

theorem InOrder.put (inOrder : db.InOrder config) (puts : db.Puts k n (some row) after)
    (referred : ∀ place ∈ k.references row, after.Stores place) (formed : k.WellFormed config row) :
    after.InOrder config := by
  have each : ∀ j m (other : j.Row), after.row? j m = some other →
      (∀ place ∈ j.references other, after.Stores place) ∧ j.WellFormed config other := by
    intro j m other stored
    by_cases kind : j = k
    · subst kind
      rw [puts.rows] at stored
      split at stored
      · cases stored
        exact ⟨referred, formed⟩
      · exact ⟨fun place member => (inOrder.referred j m other stored place member).put puts,
          inOrder.formed j m other stored⟩
    · rw [puts.row?_other kind] at stored
      exact ⟨fun place member => (inOrder.referred j m other stored place member).put puts,
        inOrder.formed j m other stored⟩
  exact ⟨fun j m other stored => (each j m other stored).1, fun j m other stored => (each j m other stored).2⟩

theorem InOrder.removes (inOrder : db.InOrder config) {ids : List (RecordId k)} (removes : db.Removes ids after)
    (unreferred : ∀ id ∈ ids, ∀ j m (other : j.Row), after.row? j m = some other →
      id.place ∉ j.references other) : after.InOrder config := by
  -- A removal adds no record, so all that is left had its references before.
  have kept : ∀ j m (other : j.Row), after.row? j m = some other → db.row? j m = some other := by
    intro j m other stored
    by_cases kind : j = k
    · subst kind
      rw [removes.rows] at stored
      split at stored
      · cases stored
      · exact stored
    · rwa [removes.row?_other kind] at stored
  refine ⟨?_, fun j m other stored => inOrder.formed j m other (kept j m other stored)⟩
  intro j m other present place member
  obtain ⟨i, l⟩ := place
  obtain ⟨row, stored⟩ := inOrder.referred j m other (kept j m other present) ⟨i, l⟩ member
  by_cases kind : i = k
  · subst kind
    refine ⟨row, ?_⟩
    rw [removes.rows, if_neg]
    · exact stored
    · intro gone
      obtain ⟨id, listed, rfl⟩ := List.mem_map.mp gone
      exact unreferred id listed j m other present member
  · exact ⟨row, by rw [removes.row?_other kind]; exact stored⟩

theorem mem_referred {other : k.Row} (member : place ∈ k.references other) : place.kind ∈ Kind.referred := by
  have kinds : (k.references other).map Place.kind ⊆ Kind.referred := by
    cases k <;> simp [Kind.references, RecordId.place, Kind.referred]
  exact kinds (List.mem_map_of_mem member)

theorem InOrder.removes_unreferred (inOrder : db.InOrder config) {ids : List (RecordId k)}
    (removes : db.Removes ids after) (unreferred : k ∉ Kind.referred) : after.InOrder config :=
  inOrder.removes removes fun _ _ _ _ _ _ member => unreferred (mem_referred member)

theorem Puts.removes {id : RecordId k} (puts : db.Puts k id.number none after) : db.Removes [id] after :=
  ⟨puts.continues, fun m => by rw [puts.rows]; simp, puts.others⟩

end Database

end RoomLedger
