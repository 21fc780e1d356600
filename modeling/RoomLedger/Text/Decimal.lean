namespace RoomLedger.Decimal

def digit? (c : Char) : Option Nat :=
  if '0' ≤ c ∧ c ≤ '9' then some (c.toNat - '0'.toNat) else none

def digitChar (d : Nat) : Char := Char.ofNat ('0'.toNat + d)

-- The value read so far goes along: a numeral is read from its most significant digit.
def accumulate : Nat → List Char → Option Nat
  | value, [] => some value
  | value, c :: rest => do accumulate (value * 10 + (← digit? c)) rest

-- Reads a non-empty run of digits; leading zeros are allowed.
def ofDigits? : List Char → Option Nat
  | [] => none
  | digits => accumulate 0 digits

def ofUnsigned? : List Char → Option Nat
  | '+' :: digits => ofDigits? digits
  | digits => ofDigits? digits

def ofSigned? : List Char → Option Int
  | '-' :: digits => (ofDigits? digits).map fun n => -(n : Int)
  | digits => (ofUnsigned? digits).map Int.ofNat

def digits (n : Nat) : List Char :=
  if n < 10 then [digitChar n] else digits (n / 10) ++ [digitChar (n % 10)]

def text (n : Nat) : String := String.ofList (digits n)

def signedText : Int → String
  | .ofNat n => text n
  | .negSucc n => "-" ++ text (n + 1)

end RoomLedger.Decimal
