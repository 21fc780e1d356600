import RoomLedger.Json.Tree
import RoomLedger.Toml.Tree

namespace RoomLedger.Toml

-- The digits without the underscores, each of which stands between two digits.
def ungrouped? (isDigit : Char → Bool) : Bool → List Char → Option (List Char)
  | afterDigit, [] => if afterDigit then some [] else none
  | true, '_' :: rest => ungrouped? isDigit false rest
  | _, c :: rest => if isDigit c then (ungrouped? isDigit true rest).map (c :: ·) else none

def digits? (spelling : List Char) : Option (List Char) := ungrouped? Char.isDigit false spelling

def whole? (spelling : List Char) : Option (List Char) :=
  match digits? spelling with
  | some ('0' :: _ :: _) => none
  | digits => digits

def unsigned : List Char → List Char
  | '+' :: rest => rest
  | '-' :: rest => rest
  | spelling => spelling

def inRange? (n : Int) : Option Toml :=
  if -0x8000000000000000 ≤ n ∧ n < 0x8000000000000000 then some (.integer n) else none

def based? (base : Nat) (spelling : List Char) : Option Toml := do
  let isDigit (c : Char) := (Spelling.hexDigit? c).any fun d => d < base
  let digits ← ungrouped? isDigit false spelling
  inRange? (digits.foldl (fun n c => n * base + ((Spelling.hexDigit? c).getD 0 : Nat)) (0 : Nat))

def integer? : List Char → Option Toml
  | '0' :: 'x' :: digits => based? 16 digits
  | '0' :: 'o' :: digits => based? 8 digits
  | '0' :: 'b' :: digits => based? 2 digits
  | spelling => do
    let n ← Decimal.ofDigits? (← whole? (unsigned spelling))
    inRange? (if spelling.head? = some '-' then -(n : Int) else n)

-- A number as it is written with a fraction or an exponent: its value is `coefficient` times the
-- `exponent`-th power of ten.
structure Scientific where
  coefficient : Nat
  exponent : Int
  deriving DecidableEq, Repr

-- The size of an exponent. From the first value beyond sixteen bits on, digits no longer count: the
-- number is as good as endless then, or as good as nothing.
def exponentSize (digits : List Char) : Nat :=
  digits.foldl (fun n c => if n < 65536 then n * 10 + (Decimal.digit? c).getD 0 else n) 0

def exponent? : List Char → Option Int
  | mark :: rest => do
    if mark ≠ 'e' ∧ mark ≠ 'E' then none
    let size := exponentSize (← digits? (unsigned rest))
    return if rest.head? = some '-' then -(size : Int) else size
  | [] => none

def scientific? (amount : List Char) : Option Scientific := do
  let isPart (c : Char) := c.isDigit || c == '_'
  let whole ← whole? (amount.takeWhile isPart)
  let (fraction, exponent) ← match amount.dropWhile isPart with
    | '.' :: rest => do
      let tail := rest.dropWhile isPart
      let exponent ← if tail.isEmpty then pure 0 else exponent? tail
      pure (← digits? (rest.takeWhile isPart), exponent)
    | rest => do pure ([], ← exponent? rest)
  return ⟨← Decimal.ofDigits? (whole ++ fraction), exponent - fraction.length⟩

-- Half a unit above the largest finite double: what reaches it rounds to infinity.
def doubleBound : Nat := Nat.pow 2 1024 - Nat.pow 2 970

def Scientific.isFinite (n : Scientific) : Bool :=
  decide (n.coefficient * Nat.pow 10 n.exponent.toNat < doubleBound * Nat.pow 10 (-n.exponent).toNat)

-- Only upward must a number stay finite; one that is too low counts as minus infinity.
def isFloat (spelling : List Char) : Bool :=
  let amount := unsigned spelling
  amount == ['i', 'n', 'f'] || amount == ['n', 'a', 'n']
    || (scientific? amount).any fun n => spelling.head? == some '-' || n.isFinite

def two? (a b : Char) : Option Nat := do return (← Decimal.digit? a) * 10 + (← Decimal.digit? b)

def daysOf (year month : Nat) : Nat :=
  if month = 2 then (if year % 4 = 0 ∧ (year % 100 ≠ 0 ∨ year % 400 = 0) then 29 else 28)
  else if month = 4 ∨ month = 6 ∨ month = 9 ∨ month = 11 then 30 else 31

def isDate : List Char → Bool
  | [a, b, c, d, '-', e, f, '-', g, h] =>
    match Decimal.ofDigits? [a, b, c, d], two? e f, two? g h with
    | some year, some month, some day =>
      decide (1 ≤ month ∧ month ≤ 12 ∧ 1 ≤ day ∧ day ≤ daysOf year month)
    | _, _, _ => false
  | _ => false

def isClock (a b colon c d : Char) : Bool :=
  colon == ':' && (two? a b).any (· < 24) && (two? c d).any (· < 60)

def isTime : List Char → Bool
  | a :: b :: colon :: c :: d :: ':' :: e :: f :: rest =>
    isClock a b colon c d && (two? e f).any (· ≤ 60) && match rest with
      | [] => true
      | '.' :: fraction => !fraction.isEmpty && fraction.all Char.isDigit
      | _ => false
  | _ => false

-- What stands after the last eight characters of a time at the least.
def isOffset : List Char → Bool
  | ['Z'] | ['z'] => true
  | [sign, a, b, colon, c, d] => (sign == '+' || sign == '-') && isClock a b colon c d
  | _ => false

def isMoment (spelling : List Char) : Bool :=
  match spelling.drop 10 with
  | [] => isDate spelling || isTime spelling
  | mark :: time =>
    isTime spelling
      || isDate (spelling.take 10) && (mark == 'T' || mark == 't' || mark == ' ')
        && (isTime time || [1, 6].any fun n =>
          let length := time.length - n
          isOffset (time.drop length) && isTime (time.take length))

def word? (spelling : List Char) : Option Toml :=
  if spelling = ['t', 'r', 'u', 'e'] then some (.bool true)
  else if spelling = ['f', 'a', 'l', 's', 'e'] then some (.bool false)
  else match integer? spelling with
    | some n => some n
    | none =>
      if isFloat spelling then some (.float (String.ofList spelling))
      else if isMoment spelling then some (.moment (String.ofList spelling))
      else none

def isPlain (c : Char) : Bool := c == '\t' || (decide (0x20 ≤ c.toNat) && c != '\x7f')

def isBlank (c : Char) : Bool := c == ' ' || c == '\t'

def escape? : List Char → Option (Char × List Char)
  | 'u' :: rest => coded 4 rest
  | 'U' :: rest => coded 8 rest
  | c :: rest => if c = '/' then none else (Spelling.shortEscape? c).map fun plain => (plain, rest)
  | [] => none
where
  coded (length : Nat) (rest : List Char) : Option (Char × List Char) := do
    let digits := rest.take length
    if digits.length < length then none
    let code ← digits.foldlM (fun n c => (Spelling.hexDigit? c).map (n * 16 + ·)) 0
    if code.isValidChar then some (Char.ofNat code, rest.drop length) else none

structure TextStyle where
  quote : Char
  escapes : Bool
  lines : Bool

-- The number of quotes that stand next, with what follows; three or more end a text over lines,
-- and of up to five the first two belong to the text.
def closing? (style : TextStyle) (input : List Char) : Option (List Char × List Char) :=
  let quotes := input.takeWhile (· == style.quote)
  if style.lines then
    if quotes.length < 3 then none
    else some (List.replicate (min (quotes.length - 3) 2) style.quote,
      input.drop (min quotes.length 5))
  else if quotes.isEmpty then none else some ([], input.drop 1)

def overBlankLines : List Char → List Char
  | [] => []
  | '\n' :: rest => overBlankLines rest
  | '\r' :: '\n' :: rest => overBlankLines rest
  | c :: rest => if isBlank c then overBlankLines rest else c :: rest

def lineEnd? (input : List Char) : Option (List Char) :=
  match input.dropWhile isBlank with
  | '\n' :: rest => some (overBlankLines rest)
  | '\r' :: '\n' :: rest => some (overBlankLines rest)
  | _ => none

def textRest? (style : TextStyle) : Nat → List Char → Option (List Char × List Char)
  | 0, _ => none
  | fuel + 1, input => do
    let more (c : Char) (rest : List Char) := do
      let (others, rest) ← textRest? style fuel rest
      return (c :: others, rest)
    match closing? style input with
    | some closed => some closed
    | none =>
      match input with
      | [] => none
      | '\n' :: rest => if style.lines then more '\n' rest else none
      | '\r' :: '\n' :: rest => if style.lines then more '\n' rest else none
      | '\\' :: rest =>
        if style.escapes then
          match (if style.lines then lineEnd? rest else none) with
          | some rest => textRest? style fuel rest
          | none => do
            let (c, rest) ← escape? rest
            more c rest
        else more '\\' rest
      | c :: rest => if isPlain c then more c rest else none

def afterLineEnd : List Char → List Char
  | '\n' :: rest => rest
  | '\r' :: '\n' :: rest => rest
  | input => input

def quoted? (input : List Char) : Option (String × List Char) := do
  let quote ← input.head?
  let lines := (input.takeWhile (· == quote)).length
  let isTriple := decide (3 ≤ lines)
  if quote ≠ '"' ∧ quote ≠ '\'' then none
  let body := if isTriple then afterLineEnd (input.drop 3) else input.drop 1
  let (chars, rest) ← textRest? ⟨quote, quote == '"', isTriple⟩ (body.length + 1) body
  return (String.ofList chars, rest)

end RoomLedger.Toml
