import RoomLedger.CommandLine.Run
import RoomLedger.Proofs.LogFrames
import RoomLedger.Proofs.MeasuredForms

namespace RoomLedger

structure ReadsBack (α : Type) [Form α] [Legible α] : Prop where
  tree : ∀ a : α, Legible.fits a → Form.read (Form.write a) = some a
  compact : ∀ a : α, Legible.fits a →
    (Json.ofCharacters? (Wire.characters (Wire.utf8 (Form.write a).compact)) >>= Form.read) = some a
  pretty : ∀ a : α, Legible.fits a → (Json.ofString? (Form.write a).pretty >>= Form.read) = some a

theorem readsBack (α : Type) [Form α] [Legible α] : ReadsBack α where
  tree := Legible.reads
  compact a fits := by
    rw [Json.ofCharacters?_compact (Legible.spelled a)]
    exact Legible.reads a fits
  pretty a fits := by
    rw [Json.ofString?_pretty (Legible.spelled a)]
    exact Legible.reads a fits

namespace CommandLine

variable {m : Type → Type} [Monad m] [LawfulMonad m] [Files m] {path : String} {bytes : List UInt8}
  {blocks : List Block}

theorem loadBlocks_json (named : isJsonPath path = true)
    (stored : (Files.read path : Run m (Option (List UInt8))) = pure (some bytes))
    (parsed : (Json.ofCharacters? (Wire.characters bytes) >>= Form.read) = some blocks) :
    (loadBlocks path : Run m (List Block)) = pure blocks := by
  unfold loadBlocks
  rw [stored, pure_bind]
  dsimp only
  rw [if_pos named, parsed]
  rfl

theorem loadBlocks_log (named : isJsonPath path = false)
    (stored : (Files.read path : Run m (Option (List UInt8))) = pure (some bytes))
    (decoded : Log.read bytes = .ok blocks) : (loadBlocks path : Run m (List Block)) = pure blocks := by
  unfold loadBlocks
  rw [stored, pure_bind]
  dsimp only
  rw [if_neg (ne_true_of_eq_false named), decoded]
  rfl

end CommandLine

namespace Log

open CommandLine

-- A list of blocks in two files, as a block log and as JSON.
structure Twins (blocks : List Block) (bytes source : List UInt8) : Prop where
  fromLog : read bytes = .ok blocks
  fromJson : (Json.ofCharacters? (Wire.characters source) >>= Form.read) = some blocks
  -- From any beginning they lead to the same result and the same chain.
  replayed : ∀ {ω : Type} [Observer ω] (config : Config) (genesis : Genesis) (observers : List ω) (first : Chain ω)
    (one other : List Block), Chain.start config genesis observers = .ok first → read bytes = .ok one →
    (Json.ofCharacters? (Wire.characters source) >>= Form.read) = some other →
    Chain.replay one first = Chain.replay other first
  -- The command prints the same for both, as long as neither file changes.
  commanded : ∀ {m : Type → Type} [Monad m] [LawfulMonad m] [Files m] (format : Format) (request : ReplayRequest)
    (log json : String), isJsonPath log = false → isJsonPath json = true →
    (Files.read log : Run m (Option (List UInt8))) = pure (some bytes) →
    (Files.read json : Run m (Option (List UInt8))) = pure (some source) →
    (CommandLine.replay format { request with blocks := log } : Run m String) =
      CommandLine.replay format { request with blocks := json }

variable {blocks : List Block} {bytes source : List UInt8}

theorem twins (fromLog : read bytes = .ok blocks)
    (fromJson : (Json.ofCharacters? (Wire.characters source) >>= Form.read) = some blocks) :
    Twins blocks bytes source where
  fromLog := fromLog
  fromJson := fromJson
  replayed config genesis observers first one other _ decoded parsed := by
    have same : one = blocks := Except.ok.inj (decoded.symm.trans fromLog)
    have equal : other = blocks := Option.some.inj (parsed.symm.trans fromJson)
    rw [same, equal]
  commanded format request log json plain named storedLog storedJson := by
    unfold CommandLine.replay
    dsimp only
    rw [loadBlocks_log plain storedLog fromLog, loadBlocks_json named storedJson fromJson]

theorem json_agrees_with_frames : (ReadsBack Operation ∧ ReadsBack Outcome ∧ ReadsBack Transaction ∧
      ReadsBack Block ∧ ReadsBack FeeSchedule ∧ ReadsBack Genesis) ∧
    ∀ blocks : List Block, (∀ b ∈ blocks, Legible.fits b) → (∀ b ∈ blocks, (Wire.write b).length ≤ maxBlockBytes) →
      ∃ bytes, write blocks = .ok bytes ∧ Twins blocks bytes (Wire.utf8 (Form.write blocks).compact) ∧
        ∀ source, Json.ofCharacters? (Wire.characters source) = some (Form.write blocks) →
          Twins blocks bytes source := by
  refine ⟨⟨readsBack _, readsBack _, readsBack _, readsBack _, readsBack _, readsBack _⟩, ?_⟩
  intro blocks fits short
  obtain ⟨bytes, written⟩ := write_eq_ok_iff.mpr short
  have fitsLog : ∀ b ∈ blocks, Faithful.fits b := by
    intro b member
    exact Measured.holds b (fits b member) (Nat.lt_of_le_of_lt (short b member) (by decide))
  have fromLog : read bytes = .ok blocks := (frames_of_write fitsLog written).read
  have fitsAll : Legible.fits blocks := List.all_eq_true.mpr fits
  refine ⟨bytes, written, twins fromLog ((readsBack _).compact blocks fitsAll), fun source parsed => ?_⟩
  refine twins fromLog ?_
  rw [parsed]
  exact (readsBack _).tree blocks fitsAll

def rekeying : Operation := .rotateKey ⟨.core 5, ⟨4⟩, ⟨7⟩, "a\"b", .ofList [(⟨12⟩, "ключ"), (⟨4⟩, "a\"b")]⟩

def scheduling : Operation := .createEventGroup ⟨.core 2, ⟨.ofList [("en", "Cup")]⟩, ⟨0, 0, 1⟩⟩

def paying : Operation := .transfer ⟨.core 1, ⟨4⟩, ⟨ObjectId.maxNumber⟩, .core (-3), none⟩

def busyDay : Block := ⟨7, ⟨1200⟩, [⟨[rekeying, scheduling], .ofList [⟨8⟩, ⟨4⟩]⟩, ⟨[paying], .empty⟩]⟩

def busyDays : List Block := [busyDay, dayOne]

def busyText : List UInt8 := Wire.utf8 (Form.write busyDays).compact

@[reducible] def shelf (log json : List UInt8) : Files Id where
  read path := if path = "days.log" then some log else if path = "days.json" then some json else none
  write _ _ := false

theorem json_agrees_with_frames_busyDays : (∀ b ∈ busyDays, Legible.fits b) ∧
    (∀ b ∈ busyDays, (Wire.write b).length ≤ maxBlockBytes) ∧
    (Legible.fits rekeying ∧ Form.read (Form.write rekeying) = some rekeying) ∧
    ∃ bytes, write busyDays = .ok bytes ∧ Twins busyDays bytes busyText ∧
      ∀ request : ReplayRequest,
        @CommandLine.replay Id _ (shelf bytes busyText) .text { request with blocks := "days.log" } =
          @CommandLine.replay Id _ (shelf bytes busyText) .text { request with blocks := "days.json" } := by
  obtain ⟨⟨operations, -⟩, agree⟩ := json_agrees_with_frames
  have fits : ∀ b ∈ busyDays, Legible.fits b := by decide
  have short : ∀ b ∈ busyDays, (Wire.write b).length ≤ maxBlockBytes := by decide +kernel
  have one : Legible.fits rekeying := by decide
  obtain ⟨bytes, written, same, -⟩ := agree _ fits short
  refine ⟨fits, short, ⟨one, operations.tree rekeying one⟩, bytes, written, same, fun request => ?_⟩
  let _ : Files Id := shelf bytes busyText
  exact same.commanded (m := Id) .text request "days.log" "days.json" rfl rfl rfl rfl

end Log

end RoomLedger
