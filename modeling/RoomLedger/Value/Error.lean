import RoomLedger.Value.ObjectId
import RoomLedger.Text.Hex
import RoomLedger.Text.Quoted

namespace RoomLedger

inductive ValueError where
  | invalidHex (fault : Hex.Fault)
  | invalidLength (expected actual : Nat)
  | invalidObjectId (text : String)
  | numberOutOfRange (number : Nat)
  | wrongClass (space type : UInt8) (actual : ObjectId)
  | assetMismatch (left right : ObjectId)
  | overflow
  deriving DecidableEq, Repr

-- A bad byte is shown as the character with its number, whatever character it is a part of.
def Hex.Fault.message : Hex.Fault → String
  | .oddLength => "Odd number of digits"
  | .badByte byte position =>
    "Invalid character " ++ Quoted.char (Char.ofNat byte.toNat) ++ " at position " ++ Decimal.text position

def ValueError.message : ValueError → String
  | .invalidHex fault => "invalid hex string: " ++ fault.message
  | .invalidLength expected actual =>
    "invalid byte length: expected " ++ Decimal.text expected ++ ", got " ++ Decimal.text actual
  | .invalidObjectId text =>
    "invalid object id '" ++ text ++ "': expected <space>.<type>.<instance>"
  | .numberOutOfRange number => "object instance " ++ Decimal.text number ++ " does not fit in 48 bits"
  | .wrongClass space type actual =>
    "object id " ++ actual.text ++ " is not a " ++ Decimal.text space.toNat ++ "."
      ++ Decimal.text type.toNat ++ ".x id"
  | .assetMismatch left right => "asset mismatch: " ++ left.text ++ " vs " ++ right.text
  | .overflow => "share amount overflow"

namespace ObjectId

def dotted : List Char → List (List Char)
  | [] => [[]]
  | '.' :: rest => [] :: dotted rest
  | c :: rest =>
    match dotted rest with
    | [] => [[c]]
    | field :: fields => (c :: field) :: fields

def checked (space type : UInt8) (number : Nat) : Except ValueError ObjectId :=
  if number ≤ maxNumber then .ok ⟨space, type, number⟩ else .error (.numberOutOfRange number)

-- Numerals are bounded by the width of their part: a byte, a byte and 64 bits. That the number
-- fits 48 bits is asked last, of a text that is otherwise an id.
def bounded? (bound : Nat) (field : List Char) : Option Nat :=
  (Decimal.ofUnsigned? field).filter fun n => n < bound

def parse (text : String) : Except ValueError ObjectId :=
  match dotted text.toList with
  | [space, type, number] =>
    match bounded? 256 space, bounded? 256 type, bounded? UInt64.size number with
    | some s, some t, some n => checked (UInt8.ofNat s) (UInt8.ofNat t) n
    | _, _, _ => .error (.invalidObjectId text)
  | _ => .error (.invalidObjectId text)

end ObjectId

end RoomLedger
