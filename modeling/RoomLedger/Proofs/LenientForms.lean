import RoomLedger.Proofs.LenientReading
import RoomLedger.Proofs.LogFrames

namespace RoomLedger

open Wire

structure Layout.Lenient {τ : Type} (layout : Layout τ) where
  orderly : Reader Bool
  normalizes : Normalizes layout.read layout.write orderly

namespace Layout.Lenient

def done : Layout.done.Lenient where
  orderly := return true
  normalizes _ _ _ taken := by
    cases taken
    exact ⟨[], true, rfl, rfl, .refl [], .pure ()⟩

def field {α β : Type} [Wire α] [Form α] [RoomLedger.Lenient α] {name : String} {absent : Option α}
    {rest : Layout β} (later : rest.Lenient) : (Layout.field name absent rest).Lenient where
  orderly := both (RoomLedger.Lenient.orderly α) later.orderly
  normalizes := RoomLedger.Lenient.normalizes.pair later.normalizes

end Layout.Lenient

namespace Lenient

@[reducible] def laid {σ : Type} [Laid σ] (fields : (Laid.layout (σ := σ)).Lenient) : Lenient σ where
  orderly := fields.orderly
  normalizes := fields.normalizes.map Laid.ofTuple fun t => congrArg (Laid.layout (σ := σ)).write (Laid.toTuple_ofTuple t)

open Layout.Lenient

instance : Lenient Funds := .laid (.field <| .field .done)

instance : Lenient Transfer := .laid (.field <| .field <| .field <| .field <| .field .done)
instance : Lenient CreateAccount := .laid (.field <| .field <| .field .done)
instance : Lenient CreateRoom := .laid (.field <| .field <| .field <| .field .done)
instance : Lenient UpdateRoom := .laid (.field <| .field <| .field <| .field .done)
instance : Lenient AddParticipant := .laid (.field <| .field <| .field <| .field <| .field <| .field .done)
instance : Lenient RemoveParticipant := .laid (.field <| .field <| .field .done)
instance : Lenient RotateKey := .laid (.field <| .field <| .field <| .field <| .field .done)
instance : Lenient DeleteRoom := .laid (.field <| .field <| .field .done)
instance : Lenient CreateSport := .laid (.field <| .field .done)
instance : Lenient UpdateSport := .laid (.field <| .field <| .field .done)
instance : Lenient DeleteSport := .laid (.field <| .field .done)
instance : Lenient CreateEventGroup := .laid (.field <| .field <| .field .done)
instance : Lenient UpdateEventGroup := .laid (.field <| .field <| .field <| .field .done)
instance : Lenient DeleteEventGroup := .laid (.field <| .field .done)

instance (k : OperationKind) : Lenient k.Payload :=
  match k with
  | .transfer => inferInstanceAs (Lenient Transfer)
  | .createAccount => inferInstanceAs (Lenient CreateAccount)
  | .createRoom => inferInstanceAs (Lenient CreateRoom)
  | .updateRoom => inferInstanceAs (Lenient UpdateRoom)
  | .addParticipant => inferInstanceAs (Lenient AddParticipant)
  | .removeParticipant => inferInstanceAs (Lenient RemoveParticipant)
  | .rotateKey => inferInstanceAs (Lenient RotateKey)
  | .deleteRoom => inferInstanceAs (Lenient DeleteRoom)
  | .createSport => inferInstanceAs (Lenient CreateSport)
  | .updateSport => inferInstanceAs (Lenient UpdateSport)
  | .deleteSport => inferInstanceAs (Lenient DeleteSport)
  | .createEventGroup => inferInstanceAs (Lenient CreateEventGroup)
  | .updateEventGroup => inferInstanceAs (Lenient UpdateEventGroup)
  | .deleteEventGroup => inferInstanceAs (Lenient DeleteEventGroup)

end Lenient

theorem OperationKind.tag_of_ofTag? {tag : UInt8} {k : OperationKind} (known : ofTag? tag = some k) : k.tag = tag := by
  have found := List.find?_some known
  exact beq_iff_eq.mp found

theorem Operation.write_ofPayload (k : OperationKind) (payload : k.Payload) :
    write (ofPayload k payload) = k.tag :: write payload := by
  cases k <;> rfl

namespace Lenient

instance : Lenient Operation where
  orderly := do
    let tag ← read (α := UInt8)
    match OperationKind.ofTag? tag with
    | some k => orderly k.Payload
    | none => return true
  normalizes := by
    refine exact_byte.after fun tag bytes op rest taken => ?_
    cases known : OperationKind.ofTag? tag with
    | none =>
      rw [known] at taken
      cases taken
    | some k =>
      rw [known] at taken
      obtain ⟨payload, last, made, given⟩ := bind_eq_ok taken
      cases given
      obtain ⟨used, sorted, whole, passed, condenses, reads⟩ := normalizes bytes payload rest made
      have form := Operation.write_ofPayload k payload
      rw [OperationKind.tag_of_ofTag? known] at form
      exact ⟨write payload, used, sorted, form, whole, passed, condenses, reads.map (Operation.ofPayload k)⟩

instance : Lenient Touched := .laid (.field <| .field <| .field .done)

instance : Lenient Outcome where
  orderly := do
    match ← read (α := UInt8) with
    | 1 => orderly ObjectId
    | 2 => orderly Funds
    | 3 => orderly Touched
    | _ => return true
  normalizes := by
    refine exact_byte.after fun tag bytes outcome rest taken => ?_
    split at taken
    · cases taken
      exact ⟨[], [], true, rfl, rfl, rfl, .refl [], .pure Outcome.nothing⟩
    · obtain ⟨id, last, made, given⟩ := bind_eq_ok taken
      cases given
      obtain ⟨used, sorted, whole, passed, condenses, reads⟩ := normalizes bytes id rest made
      exact ⟨write id, used, sorted, rfl, whole, passed, condenses, reads.map Outcome.object⟩
    · obtain ⟨amount, last, made, given⟩ := bind_eq_ok taken
      cases given
      obtain ⟨used, sorted, whole, passed, condenses, reads⟩ := normalizes bytes amount rest made
      exact ⟨write amount, used, sorted, rfl, whole, passed, condenses, reads.map Outcome.funds⟩
    · obtain ⟨ids, last, made, given⟩ := bind_eq_ok taken
      cases given
      obtain ⟨used, sorted, whole, passed, condenses, reads⟩ := normalizes bytes ids rest made
      exact ⟨write ids, used, sorted, rfl, whole, passed, condenses, reads.map Outcome.touched⟩
    · cases taken

instance : Lenient Transaction := .laid (.field <| .field .done)
instance : Lenient Block := .laid (.field <| .field <| .field .done)

end Lenient

namespace Wire

-- Whatever is read has a form that is no longer than what it was read from and is read as the same
-- value; the two are equal if and only if the keys of every map and set were in order.
structure Normal (α : Type) [Wire α] [Lenient α] : Prop where
  taken : ∀ bytes rest (a : α), Wire.read bytes = .ok (a, rest) → ∃ used sorted, bytes = used ++ rest ∧
    Lenient.orderly α bytes = .ok (sorted, rest) ∧ (Wire.write a).length ≤ used.length ∧
    (∀ after, Wire.read (Wire.write a ++ after) = .ok (a, after)) ∧ (Wire.write a = used ↔ sorted = true)

theorem normal (α : Type) [Wire α] [Lenient α] : Normal α where
  taken bytes rest a taken := by
    obtain ⟨used, sorted, whole, passed, condenses, reads⟩ := Lenient.normalizes bytes a rest taken
    exact ⟨used, sorted, whole, passed, condenses.shrinks, reads, condenses.same⟩

end Wire

namespace Log

variable {block : Block} {bytes rest : List UInt8}

theorem read_of_decode (decoded : Wire.decode bytes = .ok block) : ∃ rest, Wire.read bytes = .ok (block, rest) := by
  change (Wire.read bytes).map (·.1) = _ at decoded
  cases taken : Wire.read (α := Block) bytes with
  | error fault =>
    rw [taken] at decoded
    cases decoded
  | ok pair =>
    rw [taken] at decoded
    cases decoded
    exact ⟨pair.2, rfl⟩

theorem length_of_writeBlock (written : writeBlock block = .ok bytes) :
    bytes.length = 4 + (Wire.write block).length := by
  unfold writeBlock at written
  dsimp only at written
  split at written
  · cases written
  · cases written
    rw [List.length_append, List.length_reverse, Wire.length_lowBytes]

-- A block that is read from a frame fits into one, since its form is not longer.
theorem writeBlock_of_readBlock (taken : readBlock bytes = .ok (block, rest)) :
    ∃ frame, writeBlock block = .ok frame ∧ frame.length + rest.length ≤ bytes.length ∧
      ∀ after, readBlock (frame ++ after) = .ok (block, after) := by
  obtain ⟨frame, ⟨framed⟩, rfl⟩ := frame_of_readBlock taken
  obtain ⟨left, held⟩ := read_of_decode framed.holds
  obtain ⟨used, sorted, whole, -, shrinks, reads, -⟩ := (Wire.normal Block).taken _ _ _ held
  have size := congrArg List.length whole
  have total := congrArg List.length framed.joined
  have bounded := framed.bounded
  rw [List.length_append] at size total
  rw [framed.four] at total
  obtain ⟨again, written⟩ := writeBlock_eq_ok_iff.mpr (show (Wire.write block).length ≤ maxBlockBytes by omega)
  have holds : Wire.decode (Wire.write block) = .ok block := by
    have alone := reads []
    rw [List.append_nil] at alone
    exact congrArg (Except.map (·.1)) alone
  obtain ⟨reframed⟩ := frame_of_writeBlock holds written
  refine ⟨again, written, ?_, reframed.read⟩
  have length := length_of_writeBlock written
  rw [List.length_append]
  omega

theorem reading_normalizes : (Wire.Normal Operation ∧ Wire.Normal Outcome ∧ Wire.Normal Transaction ∧ Wire.Normal Block) ∧
    ∀ bytes rest block, readBlock bytes = .ok (block, rest) → ∃ frame, writeBlock block = .ok frame ∧
      frame.length + rest.length ≤ bytes.length ∧ ∀ after, readBlock (frame ++ after) = .ok (block, after) :=
  ⟨⟨normal _, normal _, normal _, normal _⟩, fun _ _ _ taken => writeBlock_of_readBlock taken⟩

-- Keys of two epochs, the later one first.
def jumbled : List UInt8 :=
  67 :: ([0, 0, 2, 0, 3].flatMap (lowBytes 8) ++ (lowBytes 8 1 ++ [107]) ++
    (lowBytes 8 2 ++ (lowBytes 4 1 ++ lowBytes 8 1 ++ [98]) ++ (lowBytes 4 0 ++ lowBytes 8 0)))

def handed : Operation := .addParticipant ⟨.core 0, ⟨2⟩, ⟨0⟩, ⟨3⟩, "k", .ofList [(0, ""), (1, "b")]⟩

-- The eighth account signs before the third one, and again after it.
def jumbledDay : List UInt8 :=
  lowBytes 4 1 ++ lowBytes 4 3 ++ lowBytes 8 1 ++ lowBytes 8 0 ++ (lowBytes 8 3 ++ [8, 3, 8].flatMap (lowBytes 8))

-- The last byte of the frame is none of the block.
def jumbledFrame : List UInt8 := [0, 0, 0, 57] ++ (jumbledDay ++ [9])

def handedDay : Block := ⟨1, ⟨3⟩, [⟨[], .ofList [⟨3⟩, ⟨8⟩]⟩]⟩

theorem reading_normalizes_jumbled :
    (Wire.read (jumbled ++ [7]) = .ok (handed, [7]) ∧ (Wire.write handed).length ≤ jumbled.length ∧
      Wire.write handed ≠ jumbled ∧ Wire.read (Wire.write handed ++ [67]) = .ok (handed, [67])) ∧
    (readBlock (jumbledFrame ++ [7]) = .ok (handedDay, [7]) ∧ ∃ frame, writeBlock handedDay = .ok frame ∧
      frame.length ≤ jumbledFrame.length ∧ readBlock (frame ++ [0]) = .ok (handedDay, [0])) := by
  obtain ⟨⟨operations, -⟩, blocks⟩ := reading_normalizes
  have one : Wire.read (jumbled ++ [7]) = .ok (handed, [7]) := by rfl
  have framed : Frame handedDay jumbledFrame := ⟨_, jumbledDay ++ [9], rfl, rfl, by rfl, by decide, by rfl⟩
  have day := framed.read [7]
  obtain ⟨used, sorted, whole, passed, shrinks, reads, same⟩ := operations.taken _ _ _ one
  have unsorted : Lenient.orderly Operation (jumbled ++ [7]) = .ok (false, [7]) := by rfl
  rw [unsorted] at passed
  cases passed
  cases List.append_cancel_right whole
  obtain ⟨frame, written, short, again⟩ := blocks _ _ _ day
  rw [List.length_append] at short
  exact ⟨⟨one, shrinks, fun equal => (by cases same.mp equal), reads [67]⟩,
    day, frame, written, Nat.le_of_add_le_add_right short, again [0]⟩

end Log

end RoomLedger
