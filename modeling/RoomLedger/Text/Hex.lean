namespace RoomLedger.Hex

inductive Fault where
  | oddLength
  | badByte (byte : UInt8) (position : Nat)
  deriving DecidableEq, Repr

def nibble? (b : UInt8) : Option UInt8 :=
  if 0x30 ≤ b ∧ b ≤ 0x39 then some (b - 0x30)
  else if 0x61 ≤ b ∧ b ≤ 0x66 then some (b - 0x57)
  else if 0x41 ≤ b ∧ b ≤ 0x46 then some (b - 0x37)
  else none

def pairs : Nat → List UInt8 → Except Fault (List UInt8)
  | position, high :: low :: rest =>
    match nibble? high, nibble? low with
    | none, _ => .error (.badByte high position)
    | _, none => .error (.badByte low (position + 1))
    | some h, some l => return (h * 16 + l) :: (← pairs (position + 2) rest)
  | _, _ => .ok []

-- Reads the bytes of a text. Its length counts in bytes and is looked at first.
def decode (text : String) : Except Fault (List UInt8) :=
  let bytes := text.toUTF8.data.toList
  if bytes.length % 2 = 1 then .error .oddLength else pairs 0 bytes

def nibbleChar (n : UInt8) : Char :=
  if n < 10 then Char.ofNat (0x30 + n.toNat) else Char.ofNat (0x57 + n.toNat)

def encode (bytes : List UInt8) : String :=
  String.ofList (bytes.flatMap fun b => [nibbleChar (b / 16), nibbleChar (b % 16)])

end RoomLedger.Hex
