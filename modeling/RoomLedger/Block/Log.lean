import RoomLedger.Block.Transaction

namespace RoomLedger

namespace Log

def maxBlockBytes : Nat := 16 * 1024 * 1024

inductive Fault where
  | tooLarge (size : Nat)
  | tooShort
  | incomplete (present needed : Nat)
  | unreadable (fault : Wire.Fault)
  deriving DecidableEq, Repr

def Fault.message : Fault → String
  | .tooLarge size =>
    "block too large: " ++ Decimal.text size ++ " bytes (max " ++ Decimal.text maxBlockBytes ++ ")"
  | .tooShort => "framing error: too short"
  | .incomplete present needed =>
    "framing error: incomplete: have " ++ Decimal.text present ++ ", need " ++ Decimal.text needed
  | .unreadable (.unknownOperation tag) =>
    "deserialization error: unknown operation tag: " ++ Decimal.text tag.toNat
  | .unreadable (.unknownResult tag) =>
    "deserialization error: unknown operation result tag: " ++ Decimal.text tag.toNat
  | .unreadable .malformed => "deserialization error"

-- A log is its blocks one after the other, each in a frame: four bytes of length, highest first,
-- and the binary form.
def writeBlock (block : Block) : Except Fault (List UInt8) :=
  let payload := Wire.write block
  let size := payload.length
  if maxBlockBytes < size then .error (.tooLarge size)
  else .ok ((Wire.lowBytes 4 size).reverse ++ payload)

def readBlock (bytes : List UInt8) : Except Fault (Block × List UInt8) :=
  match bytes.splitAt 4 with
  | ([a, b, c, d], rest) =>
    let size := Wire.ofLowBytes [d, c, b, a]
    if maxBlockBytes < size then .error (.tooLarge size)
    else
      let (payload, after) := rest.splitAt size
      if payload.length < size then .error (.incomplete bytes.length (4 + size))
      else match Wire.decode payload with
        | .ok block => .ok (block, after)
        | .error fault => .error (.unreadable fault)
  | _ => .error .tooShort

theorem length_readBlock {bytes : List UInt8} {block : Block} {rest : List UInt8}
    (h : readBlock bytes = .ok (block, rest)) : rest.length < bytes.length := by
  rw [readBlock] at h
  split at h
  · rename_i a b c d after split
    rw [List.splitAt_eq] at split
    have taken := congrArg (fun p => p.1.length) split
    have after_eq : after = bytes.drop 4 := (congrArg Prod.snd split).symm
    simp only [List.length_take, List.length_cons, List.length_nil] at taken
    simp only [List.splitAt_eq] at h
    split at h
    · cases h
    · split at h
      · cases h
      · split at h
        · cases h
          simp only [after_eq, List.length_drop]
          omega
        · cases h
  · cases h

def write (blocks : List Block) : Except Fault (List UInt8) := do
  return (← blocks.mapM writeBlock).flatten

def read (bytes : List UInt8) : Except Fault (List Block) :=
  if bytes.isEmpty then .ok []
  else match h : readBlock bytes with
    | .error fault => .error fault
    | .ok (block, rest) =>
      have := length_readBlock h
      do return block :: (← read rest)
termination_by bytes.length

end Log

end RoomLedger
