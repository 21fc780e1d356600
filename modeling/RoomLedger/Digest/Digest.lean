import RoomLedger.Value.Error
import RoomLedger.Digest.Blake3

namespace RoomLedger

structure Digest where
  bytes : List UInt8
  length_eq : bytes.length = 32
  deriving DecidableEq

namespace Digest

def zero : Digest := ⟨List.replicate 32 0, rfl⟩

theorem length_blake3 (input : List UInt8) : (Blake3.hash input).length = 32 := by
  simp [Blake3.hash, Blake3.Row.bytes]

def ofInput (input : List UInt8) : Digest := ⟨Blake3.hash input, length_blake3 input⟩

def hex (d : Digest) : String := Hex.encode d.bytes
def shortHex (d : Digest) : String := Hex.encode (d.bytes.take 4)
def debugText (d : Digest) : String := "Digest(" ++ d.shortHex ++ ")"

def parse (text : String) : Except ValueError Digest :=
  match Hex.decode text with
  | .error fault => .error (.invalidHex fault)
  | .ok bytes => if h : bytes.length = 32 then .ok ⟨bytes, h⟩ else .error (.invalidLength 32 bytes.length)

end Digest

end RoomLedger
