import RoomLedger.Block.Transaction
import RoomLedger.Operation.Outcome
import RoomLedger.Record.Row
import RoomLedger.Proofs.BinaryReading

namespace RoomLedger

theorem OperationKind.ofTag?_tag (k : OperationKind) : ofTag? k.tag = some k := by cases k <;> decide

theorem Operation.ofPayload_payload (op : Operation) : ofPayload op.kind op.payload = op := by
  cases op <;> rfl

structure Layout.Faithful {τ : Type} (layout : Layout τ) where
  fits : τ → Bool
  reads : ∀ value, fits value → Wire.Reads layout.read (layout.write value) value

namespace Layout.Faithful

def done : Layout.done.Faithful where
  fits _ := true
  reads _ _ := .pure ()

def field {α β : Type} [Wire α] [Form α] [RoomLedger.Faithful α] {name : String} {absent : Option α}
    {rest : Layout β} (later : rest.Faithful) : (Layout.field name absent rest).Faithful where
  fits value := RoomLedger.Faithful.fits value.1 && later.fits value.2
  reads value fits := by
    rw [Bool.and_eq_true] at fits
    obtain ⟨a, b⟩ := value
    exact (RoomLedger.Faithful.reads a fits.1).bind ((later.reads b fits.2).map _)

end Layout.Faithful

namespace Faithful

@[reducible] def laid {σ : Type} [Laid σ] (fields : (Laid.layout (σ := σ)).Faithful) : Faithful σ where
  fits s := fields.fits (Laid.toTuple s)
  reads s fits := by
    have reads := (fields.reads (Laid.toTuple s) fits).map Laid.ofTuple
    rwa [Laid.ofTuple_toTuple] at reads

open Layout.Faithful

instance : Faithful Funds := .laid (.field <| .field .done)

instance : Faithful Transfer := .laid (.field <| .field <| .field <| .field <| .field .done)
instance : Faithful CreateAccount := .laid (.field <| .field <| .field .done)
instance : Faithful CreateRoom := .laid (.field <| .field <| .field <| .field .done)
instance : Faithful UpdateRoom := .laid (.field <| .field <| .field <| .field .done)
instance : Faithful AddParticipant :=
  .laid (.field <| .field <| .field <| .field <| .field <| .field .done)
instance : Faithful RemoveParticipant := .laid (.field <| .field <| .field .done)
instance : Faithful RotateKey := .laid (.field <| .field <| .field <| .field <| .field .done)
instance : Faithful DeleteRoom := .laid (.field <| .field <| .field .done)
instance : Faithful CreateSport := .laid (.field <| .field .done)
instance : Faithful UpdateSport := .laid (.field <| .field <| .field .done)
instance : Faithful DeleteSport := .laid (.field <| .field .done)
instance : Faithful CreateEventGroup := .laid (.field <| .field <| .field .done)
instance : Faithful UpdateEventGroup := .laid (.field <| .field <| .field <| .field .done)
instance : Faithful DeleteEventGroup := .laid (.field <| .field .done)

instance (k : OperationKind) : Faithful k.Payload :=
  match k with
  | .transfer => inferInstanceAs (Faithful Transfer)
  | .createAccount => inferInstanceAs (Faithful CreateAccount)
  | .createRoom => inferInstanceAs (Faithful CreateRoom)
  | .updateRoom => inferInstanceAs (Faithful UpdateRoom)
  | .addParticipant => inferInstanceAs (Faithful AddParticipant)
  | .removeParticipant => inferInstanceAs (Faithful RemoveParticipant)
  | .rotateKey => inferInstanceAs (Faithful RotateKey)
  | .deleteRoom => inferInstanceAs (Faithful DeleteRoom)
  | .createSport => inferInstanceAs (Faithful CreateSport)
  | .updateSport => inferInstanceAs (Faithful UpdateSport)
  | .deleteSport => inferInstanceAs (Faithful DeleteSport)
  | .createEventGroup => inferInstanceAs (Faithful CreateEventGroup)
  | .updateEventGroup => inferInstanceAs (Faithful UpdateEventGroup)
  | .deleteEventGroup => inferInstanceAs (Faithful DeleteEventGroup)

instance : Faithful Operation where
  fits op := fits op.payload
  reads op fits := by
    have tag : Wire.Reads Wire.read [op.tag] op.tag := fun _ => rfl
    have payload := (Faithful.reads op.payload fits).map (Operation.ofPayload op.kind)
    rw [op.ofPayload_payload] at payload
    refine tag.bind ?_
    rw [Operation.tag, op.kind.ofTag?_tag]
    exact payload

instance : Faithful Touched := .laid (.field <| .field <| .field .done)

instance : Faithful Outcome where
  fits
    | .nothing => true
    | .object id => fits id
    | .funds amount => fits amount
    | .touched ids => fits ids
  reads outcome fits := by
    have tag : Wire.Reads Wire.read [outcome.tag] outcome.tag := fun _ => rfl
    refine tag.bind ?_
    cases outcome with
    | nothing => exact .pure Outcome.nothing
    | object id => exact (Faithful.reads id fits).map Outcome.object
    | funds amount => exact (Faithful.reads amount fits).map Outcome.funds
    | touched ids => exact (Faithful.reads ids fits).map Outcome.touched

instance : Faithful Transaction := .laid (.field <| .field .done)
instance : Faithful Block := .laid (.field <| .field <| .field .done)

instance : Faithful FeeParameters := .laid (.field <| .field .done)
instance : Faithful FeeSchedule := .laid (.field <| .field .done)
instance : Faithful Parameters := .laid (.field .done)
instance : Faithful Account := .laid (.field <| .field <| .field .done)
instance : Faithful AssetInfo := .laid (.field <| .field <| .field <| .field <| .field .done)
instance : Faithful Sport := .laid (.field <| .field .done)
instance : Faithful EventGroup := .laid (.field <| .field <| .field .done)
instance : Faithful Room := .laid (.field <| .field <| .field <| .field <| .field <| .field .done)
instance : Faithful Participant := .laid (.field <| .field <| .field <| .field <| .field .done)
instance : Faithful EpochKey := .laid (.field <| .field <| .field <| .field <| .field .done)
instance : Faithful Globals := .laid (.field <| .field .done)
instance : Faithful Head := .laid (.field <| .field <| .field .done)
instance : Faithful Supply := .laid (.field <| .field <| .field .done)
instance : Faithful Balance := .laid (.field <| .field <| .field <| .field .done)

instance (k : Kind) : Faithful k.Row :=
  match k with
  | .account => inferInstanceAs (Faithful Account)
  | .asset => inferInstanceAs (Faithful AssetInfo)
  | .sport => inferInstanceAs (Faithful Sport)
  | .eventGroup => inferInstanceAs (Faithful EventGroup)
  | .room => inferInstanceAs (Faithful Room)
  | .participant => inferInstanceAs (Faithful Participant)
  | .epochKey => inferInstanceAs (Faithful EpochKey)
  | .globals => inferInstanceAs (Faithful Globals)
  | .head => inferInstanceAs (Faithful Head)
  | .supply => inferInstanceAs (Faithful Supply)
  | .balance => inferInstanceAs (Faithful Balance)

end Faithful

namespace Wire

-- The form of a value says by itself where it ends.
structure SelfDelimiting (α : Type) [Wire α] [Faithful α] : Prop where
  taken : ∀ a : α, Faithful.fits a → ∀ rest, Wire.read (Wire.write a ++ rest) = .ok (a, rest)
  decoded : ∀ a : α, Faithful.fits a → ∀ rest, Wire.decode (Wire.write a ++ rest) = .ok a
  injective : ∀ a b : α, Faithful.fits a → Faithful.fits b → Wire.write a = Wire.write b → a = b
  prefixFree : ∀ a b : α, Faithful.fits a → Faithful.fits b → Wire.write a <+: Wire.write b → a = b

theorem selfDelimiting (α : Type) [Wire α] [Faithful α] : SelfDelimiting α where
  taken a fits := Faithful.reads a fits
  decoded a fits rest := by
    change (Wire.read (Wire.write a ++ rest)).map (·.1) = _
    rw [Faithful.reads a fits rest]
    rfl
  injective a b fits other same :=
    (Faithful.reads a fits).unambiguous (Faithful.reads b other) (same ▸ List.prefix_refl _)
  prefixFree a b fits other begins :=
    (Faithful.reads a fits).unambiguous (Faithful.reads b other) begins

theorem reading_undoes_writing : SelfDelimiting Operation ∧ SelfDelimiting Outcome ∧
    SelfDelimiting Transaction ∧ SelfDelimiting Block :=
  ⟨selfDelimiting _, selfDelimiting _, selfDelimiting _, selfDelimiting _⟩

def handOver : Operation := .addParticipant
  ⟨.core (-3), ⟨2 ^ 64 - 1⟩, ⟨4⟩, ⟨5⟩, "ключ", .ofList [(1, "b"), (0, "")]⟩

def regroup : Operation := .updateEventGroup ⟨.core 9, ⟨0⟩, some ⟨0, 0, ObjectId.maxNumber⟩, none⟩

def handingOver : Block := ⟨7, ⟨1200⟩, [⟨[handOver, regroup], .ofList [⟨8⟩, ⟨3⟩]⟩, ⟨[], .empty⟩]⟩

def handedOver : Outcome := .touched ⟨.ofList [⟨1, 26, 1⟩, ⟨1, 25, 0⟩], .empty, .ofList [⟨255, 255, 0⟩]⟩

theorem reading_undoes_writing_handingOver :
    (Faithful.fits handOver ∧ Wire.decode (Wire.write handOver ++ [0, 67]) = .ok handOver) ∧
    (Faithful.fits handedOver ∧ Wire.decode (Wire.write handedOver ++ [3]) = .ok handedOver) ∧
    (Faithful.fits handingOver ∧ Wire.read (Wire.write handingOver ++ [5, 5]) = .ok (handingOver, [5, 5])) := by
  obtain ⟨operations, outcomes, _, blocks⟩ := reading_undoes_writing
  have first : Faithful.fits handOver := by decide
  have second : Faithful.fits handedOver := by decide
  have third : Faithful.fits handingOver := by decide
  exact ⟨⟨first, operations.decoded handOver first [0, 67]⟩,
    ⟨second, outcomes.decoded handedOver second [3]⟩,
    ⟨third, blocks.taken handingOver third [5, 5]⟩⟩

end Wire

end RoomLedger
