import RoomLedger.Text.Printable

namespace RoomLedger.Quoted

def hexDigits (n : Nat) : List Char :=
  if n < 16 then [hexChar n] else hexDigits (n / 16) ++ [hexChar (n % 16)]
where
  hexChar (n : Nat) : Char := Char.ofNat (if n < 10 then 0x30 + n else 0x57 + n)

-- The quote that closes the text is escaped, the other one is not.
def escape (quote c : Char) : List Char :=
  if c = '\x00' then ['\\', '0']
  else if c = '\t' then ['\\', 't']
  else if c = '\n' then ['\\', 'n']
  else if c = '\r' then ['\\', 'r']
  else if c = quote ∨ c = '\\' then ['\\', c]
  else if Printable.shows c then [c]
  else ['\\', 'u', '\x7b'] ++ hexDigits c.toNat ++ ['\x7d']

def char (c : Char) : String := String.ofList (['\''] ++ escape '\'' c ++ ['\''])

def text (s : String) : String := String.ofList (['"'] ++ s.toList.flatMap (escape '"') ++ ['"'])

end RoomLedger.Quoted
