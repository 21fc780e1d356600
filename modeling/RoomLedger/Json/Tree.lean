import RoomLedger.Text.Decimal

namespace RoomLedger

-- Leaves and names are kept as they are spelled, and members in the order and number in which they
-- stand: a reader decides what a spelling means.
inductive Json where
  | null
  | bool (value : Bool)
  | number (spelling : String)
  -- The spelling is what stands between the quotes.
  | text (spelling : String)
  | list (items : List Json)
  | record (members : List (String × Json))
  deriving Inhabited

namespace Spelling

def hexDigit? (c : Char) : Option Nat :=
  if '0' ≤ c ∧ c ≤ '9' then some (c.toNat - 0x30)
  else if 'a' ≤ c ∧ c ≤ 'f' then some (c.toNat - 0x57)
  else if 'A' ≤ c ∧ c ≤ 'F' then some (c.toNat - 0x37)
  else none

def unit? (a b c d : Char) : Option Nat := do
  return (((← hexDigit? a) * 16 + (← hexDigit? b)) * 16 + (← hexDigit? c)) * 16 + (← hexDigit? d)

def shortEscape? : Char → Option Char
  | '"' => some '"'
  | '\\' => some '\\'
  | '/' => some '/'
  | 'b' => some '\x08'
  | 'f' => some '\x0c'
  | 'n' => some '\n'
  | 'r' => some '\r'
  | 't' => some '\t'
  | _ => none

def isHigh (unit : Nat) : Bool := decide (0xd800 ≤ unit ∧ unit < 0xdc00)
def isLow (unit : Nat) : Bool := decide (0xdc00 ≤ unit ∧ unit < 0xe000)

-- The text that a spelling stands for. A surrogate needs its partner.
def unescape : List Char → Option (List Char)
  | [] => some []
  | '\\' :: 'u' :: a :: b :: c :: d :: rest => do
    let unit ← unit? a b c d
    if isLow unit then none
    else if isHigh unit then
      match rest with
      | '\\' :: 'u' :: e :: f :: g :: h :: rest =>
        let low ← unit? e f g h
        if isLow low then
          return Char.ofNat (0x10000 + (unit - 0xd800) * 0x400 + (low - 0xdc00)) :: (← unescape rest)
        else none
      | _ => none
    else return Char.ofNat unit :: (← unescape rest)
  | '\\' :: c :: rest => do
    let plain ← shortEscape? c
    return plain :: (← unescape rest)
  | c :: rest =>
    if c = '\\' ∨ c = '"' ∨ c.toNat < 0x20 then none else return c :: (← unescape rest)

-- What every string token satisfies, whether or not anybody reads it. Surrogates are looked at only
-- by `unescape`.
def wellSpelled : List Char → Bool
  | [] => true
  | '\\' :: 'u' :: a :: b :: c :: d :: rest => (unit? a b c d).isSome && wellSpelled rest
  | '\\' :: c :: rest => (shortEscape? c).isSome && wellSpelled rest
  | c :: rest => c != '\\' && c != '"' && decide (0x20 ≤ c.toNat) && wellSpelled rest

def lowHex (n : Nat) : Char := Char.ofNat (if n < 10 then 0x30 + n else 0x57 + n)

def escapeChar (c : Char) : List Char :=
  if c = '"' then ['\\', '"']
  else if c = '\\' then ['\\', '\\']
  else if c = '\x08' then ['\\', 'b']
  else if c = '\t' then ['\\', 't']
  else if c = '\n' then ['\\', 'n']
  else if c = '\x0c' then ['\\', 'f']
  else if c = '\r' then ['\\', 'r']
  else if c.toNat < 0x20 then ['\\', 'u', '0', '0', lowHex (c.toNat / 16), lowHex (c.toNat % 16)]
  else [c]

def ofText (s : String) : String :=
  if s.toList.all fun c => c != '"' && c != '\\' && decide (0x20 ≤ c.toNat) then s
  else String.ofList (s.toList.flatMap escapeChar)

-- Stands for a spelling with a byte that belongs to no character. Like any half of a surrogate pair,
-- it may be passed over but has no text.
def textless : String := "\\ud800"

def text? (s : String) : Option String := (unescape s.toList).map String.ofList

end Spelling

namespace Json

def ofText (s : String) : Json := .text (Spelling.ofText s)
def ofNat (n : Nat) : Json := .number (Decimal.text n)
def ofInt (n : Int) : Json := .number (Decimal.signedText n)
def ofOption {α : Type} (write : α → Json) (value : Option α) : Json := value.elim .null write

def ofMembers (members : List (String × Json)) : Json :=
  .record (members.map fun m => (Spelling.ofText m.1, m.2))

-- The member of a record under a plain name, the last one if the name is repeated.
def member? (name : String) : Json → Option Json
  | .record members => (members.reverse.find? fun m => Spelling.text? m.1 == some name).map (·.2)
  | _ => none

def asText? : Json → Option String
  | .text spelling => Spelling.text? spelling
  | _ => none

def asBool? : Json → Option Bool
  | .bool value => some value
  | _ => none

def asList? : Json → Option (List Json)
  | .list items => some items
  | _ => none

def asMembers? : Json → Option (List (String × Json))
  | .record members => some members
  | _ => none

-- A fraction, an exponent and `-0` make a number inexact, whatever its value is.
def integer? : List Char → Option Int
  | ['-', '0'] => none
  | '-' :: digits => (Decimal.ofDigits? digits).map fun n => -(n : Int)
  | digits => (Decimal.ofDigits? digits).map Int.ofNat

def asInt? : Json → Option Int
  | .number spelling => integer? spelling.toList
  | _ => none

end Json

end RoomLedger
