import RoomLedger.Proofs.JsonForms

namespace RoomLedger

open Std

class Filled (α : Type) [Wire α] : Prop where
  filled : ∀ a : α, Wire.write a ≠ []

-- Values whose binary form holds them, if it is not too long and JSON reads them back.
class Measured (α : Type) [Wire α] [Form α] [Faithful α] [Legible α] : Prop where
  holds : ∀ a : α, Legible.fits a → (Wire.write a).length < 2 ^ 64 → Faithful.fits a

namespace Filled

instance : Filled UInt32 where
  filled _ same := nomatch same

instance : Filled String where
  filled _ same := nomatch same

instance {k : Kind} : Filled (RecordId k) where
  filled _ same := nomatch same

instance : Filled Operation where
  filled _ same := nomatch same

instance : Filled Transaction where
  filled _ same := nomatch same

variable {α : Type} [Wire α]

-- What is counted takes at least a byte each.
theorem count_le [Filled α] (items : List α) : items.length ≤ (items.flatMap Wire.write).length := by
  induction items with
  | nil => exact Nat.le_refl _
  | cons a rest ih =>
    have some : 0 < (Wire.write a).length := List.length_pos_iff.mpr (filled a)
    rw [List.flatMap_cons, List.length_append, List.length_cons]
    omega

end Filled

namespace Measured

variable {α κ : Type}

theorem part_le [Wire α] {items : List α} {a : α} (member : a ∈ items) :
    (Wire.write a).length ≤ (items.flatMap Wire.write).length := by
  obtain ⟨before, after, rfl⟩ := List.append_of_mem member
  rw [List.flatMap_append, List.flatMap_cons, List.length_append, List.length_append]
  omega

theorem fits_list [Wire α] [Faithful α] [Filled α] {items : List α}
    (small : (Wire.write items).length < 2 ^ 64)
    (each : ∀ a ∈ items, (Wire.write a).length < 2 ^ 64 → Faithful.fits a) : Faithful.fits items := by
  have parts : (items.flatMap Wire.write).length < 2 ^ 64 := by
    have whole : (Wire.write items).length = 8 + (items.flatMap Wire.write).length := List.length_append ..
    omega
  have few := Nat.lt_of_le_of_lt (Filled.count_le items) parts
  change (decide (items.length < 2 ^ 64) && items.all Faithful.fits) = true
  rw [Bool.and_eq_true, decide_eq_true_iff, List.all_eq_true]
  exact ⟨few, fun a member => each a member (Nat.lt_of_le_of_lt (part_le member) parts)⟩

instance : Measured UInt32 := ⟨fun _ _ _ => rfl⟩
instance : Measured Int64 := ⟨fun _ _ _ => rfl⟩
instance : Measured Timestamp := ⟨fun _ _ _ => rfl⟩
instance : Measured ObjectId := ⟨fun _ fits _ => fits⟩

instance {k : Kind} : Measured (RecordId k) where
  holds _ fits _ := decide_eq_true (Nat.lt_of_le_of_lt (of_decide_eq_true fits) (by decide))

instance : Measured String where
  holds s _ small := by
    have whole : (Wire.write s).length = 8 + s.utf8ByteSize := List.length_append ..
    exact decide_eq_true (by omega)

instance [Wire α] [Form α] [Faithful α] [Legible α] [Shown α] [Measured α] : Measured (Option α) where
  holds a? fits small := by
    cases a? with
    | none => rfl
    | some a => exact holds a fits (Nat.lt_of_succ_lt small)

instance [Wire α] [Form α] [Faithful α] [Legible α] [Filled α] [Measured α] : Measured (List α) where
  holds items fits small := by
    change items.all Legible.fits = true at fits
    rw [List.all_eq_true] at fits
    exact fits_list small fun a member => holds a (fits a member)

variable [Ord κ] [TransOrd κ] [LawfulEqOrd κ] [Wire κ] [Faithful κ] [Filled κ]

instance [Form κ] [Legible κ] [Measured κ] : Measured (SortedSet κ) where
  holds s fits small := holds s.toList fits small

theorem holds_map [NameForm κ] [LegibleName κ] [Wire α] [Form α] [Faithful α] [Legible α] [Measured α]
    (key : ∀ k : κ, LegibleName.fits k → (Wire.write k).length < 2 ^ 64 → Faithful.fits k)
    {m : SortedMap κ α} (fits : Legible.fits m) (small : (Wire.write m).length < 2 ^ 64) : Faithful.fits m := by
  have : Filled (κ × α) := ⟨fun e empty => Filled.filled e.1 (List.append_eq_nil_iff.mp empty).1⟩
  change m.entries.all (fun e => LegibleName.fits e.1 && Legible.fits e.2) = true at fits
  rw [List.all_eq_true] at fits
  change Faithful.fits m.entries = true
  refine fits_list small fun e member short => ?_
  have fits := fits e member
  rw [Bool.and_eq_true] at fits
  have whole : (Wire.write e).length = (Wire.write e.1).length + (Wire.write e.2).length := List.length_append ..
  change (Faithful.fits e.1 && Faithful.fits e.2) = true
  rw [key e.1 fits.1 (by omega), holds e.2 fits.2 (by omega)]
  rfl

variable [Form α] [Wire α] [Faithful α] [Legible α] [Measured α]

instance : Measured (SortedMap UInt32 α) := ⟨fun _ => holds_map Measured.holds⟩
instance : Measured (SortedMap String α) := ⟨fun _ => holds_map Measured.holds⟩
instance {k : Kind} : Measured (SortedMap (RecordId k) α) := ⟨fun _ => holds_map Measured.holds⟩

instance : Measured LocalizedName := ⟨fun name => holds name.texts⟩

end Measured

def Layout.Measured {τ : Type} (layout : Layout τ) (legible : layout.Legible) (faithful : layout.Faithful) : Prop :=
  ∀ value, legible.fits value → (layout.write value).length < 2 ^ 64 → faithful.fits value

namespace Layout.Measured

theorem done : Layout.done.Measured .done .done := fun _ _ _ => rfl

theorem field {α β : Type} [Wire α] [Form α] [RoomLedger.Faithful α] [RoomLedger.Legible α]
    [RoomLedger.Measured α] {name : String} {absent : Option α} {rest : Layout β} {legible : rest.Legible}
    {faithful : rest.Faithful} (later : rest.Measured legible faithful) :
    (Layout.field name absent rest).Measured (.field legible) (.field faithful) := by
  intro (a, b) fits small
  change (RoomLedger.Legible.fits a && legible.fits b) = true at fits
  rw [Bool.and_eq_true] at fits
  have whole : ((Layout.field name absent rest).write (a, b)).length =
      (Wire.write a).length + (rest.write b).length := List.length_append ..
  change (RoomLedger.Faithful.fits a && faithful.fits b) = true
  rw [RoomLedger.Measured.holds a fits.1 (by omega), later b fits.2 (by omega)]
  rfl

end Layout.Measured

namespace Measured

theorem laid {σ : Type} [Laid σ] {legible : (Laid.layout (σ := σ)).Legible}
    {faithful : (Laid.layout (σ := σ)).Faithful} (fields : (Laid.layout (σ := σ)).Measured legible faithful)
    (s : σ) : legible.fits (Laid.toTuple s) → (Wire.write s).length < 2 ^ 64 → faithful.fits (Laid.toTuple s) :=
  fields (Laid.toTuple s)

open Layout.Measured

instance : Measured Funds := ⟨laid (.field <| .field .done)⟩

instance : Measured Transfer := ⟨laid (.field <| .field <| .field <| .field <| .field .done)⟩
instance : Measured CreateAccount := ⟨laid (.field <| .field <| .field .done)⟩
instance : Measured CreateRoom := ⟨laid (.field <| .field <| .field <| .field .done)⟩
instance : Measured UpdateRoom := ⟨laid (.field <| .field <| .field <| .field .done)⟩
instance : Measured AddParticipant :=
  ⟨laid (.field <| .field <| .field <| .field <| .field <| .field .done)⟩
instance : Measured RemoveParticipant := ⟨laid (.field <| .field <| .field .done)⟩
instance : Measured RotateKey := ⟨laid (.field <| .field <| .field <| .field <| .field .done)⟩
instance : Measured DeleteRoom := ⟨laid (.field <| .field <| .field .done)⟩
instance : Measured CreateSport := ⟨laid (.field <| .field .done)⟩
instance : Measured UpdateSport := ⟨laid (.field <| .field <| .field .done)⟩
instance : Measured DeleteSport := ⟨laid (.field <| .field .done)⟩
instance : Measured CreateEventGroup := ⟨laid (.field <| .field <| .field .done)⟩
instance : Measured UpdateEventGroup := ⟨laid (.field <| .field <| .field <| .field .done)⟩
instance : Measured DeleteEventGroup := ⟨laid (.field <| .field .done)⟩

instance (k : OperationKind) : Measured k.Payload :=
  match k with
  | .transfer => inferInstanceAs (Measured Transfer)
  | .createAccount => inferInstanceAs (Measured CreateAccount)
  | .createRoom => inferInstanceAs (Measured CreateRoom)
  | .updateRoom => inferInstanceAs (Measured UpdateRoom)
  | .addParticipant => inferInstanceAs (Measured AddParticipant)
  | .removeParticipant => inferInstanceAs (Measured RemoveParticipant)
  | .rotateKey => inferInstanceAs (Measured RotateKey)
  | .deleteRoom => inferInstanceAs (Measured DeleteRoom)
  | .createSport => inferInstanceAs (Measured CreateSport)
  | .updateSport => inferInstanceAs (Measured UpdateSport)
  | .deleteSport => inferInstanceAs (Measured DeleteSport)
  | .createEventGroup => inferInstanceAs (Measured CreateEventGroup)
  | .updateEventGroup => inferInstanceAs (Measured UpdateEventGroup)
  | .deleteEventGroup => inferInstanceAs (Measured DeleteEventGroup)

instance : Measured Operation where
  holds op fits small := holds op.payload fits (Nat.lt_of_succ_lt small)

instance : Measured Transaction := ⟨laid (.field <| .field .done)⟩
instance : Measured Block := ⟨laid (.field <| .field <| .field .done)⟩

end Measured

end RoomLedger
