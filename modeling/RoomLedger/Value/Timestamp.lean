import RoomLedger.Text.Decimal

namespace RoomLedger

structure Timestamp where
  seconds : UInt32
  deriving DecidableEq, Inhabited, Repr

namespace Timestamp

def later (t : Timestamp) (seconds : UInt32) : Timestamp :=
  ⟨UInt32.ofNat (min (UInt32.size - 1) (t.seconds.toNat + seconds.toNat))⟩

def isAfter (t u : Timestamp) : Bool := decide (u.seconds < t.seconds)

def text (t : Timestamp) : String := Decimal.text t.seconds.toNat ++ "s"

end Timestamp

end RoomLedger
