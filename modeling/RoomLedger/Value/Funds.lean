import RoomLedger.Value.RecordId

namespace RoomLedger

abbrev Shares := Int64

namespace Shares

def maxValue : Int := 0x7FFFFFFFFFFFFFFF
def minValue : Int := -0x8000000000000000

def ofInt? (value : Int) : Option Shares :=
  if minValue ≤ value ∧ value ≤ maxValue then some (Int64.ofInt value) else none

def addExact? (a b : Shares) : Option Shares := ofInt? (a.toInt + b.toInt)
def subExact? (a b : Shares) : Option Shares := ofInt? (a.toInt - b.toInt)

-- The sum, or the bound that it would pass.
def addClamped (a b : Shares) : Shares :=
  Int64.ofInt (max minValue (min maxValue (a.toInt + b.toInt)))

end Shares

def maxSupply : Shares := 1000000000000000

def coreUnits : Nat := 100000

structure Funds where
  amount : Shares
  asset : AssetId
  deriving DecidableEq, Inhabited, Repr

namespace Funds

def core (amount : Shares) : Funds := ⟨amount, coreAsset⟩

def text (f : Funds) : String := Decimal.signedText f.amount.toInt ++ " " ++ f.asset.text

def sameAsset (a b : Funds) : Except ValueError Unit :=
  if a.asset = b.asset then .ok () else .error (.assetMismatch a.asset b.asset)

def add (a b : Funds) : Except ValueError Funds := do
  sameAsset a b
  match a.amount.addExact? b.amount with
  | some amount => .ok ⟨amount, a.asset⟩
  | none => .error .overflow

def sub (a b : Funds) : Except ValueError Funds := do
  sameAsset a b
  match a.amount.subExact? b.amount with
  | some amount => .ok ⟨amount, a.asset⟩
  | none => .error .overflow

end Funds

end RoomLedger
