import RoomLedger.Toml.Scalar

namespace RoomLedger.Toml

abbrev Reader (α : Type) := StateT (List Char) Option α

namespace Reader

def isNext (c : Char) : Reader Bool := fun input => some (input.head? == some c, input)

def take (c : Char) : Reader Unit := fun
  | d :: rest => if c = d then some ((), rest) else none
  | [] => none

def word (belongs : Char → Bool) : Reader (List Char) := fun input =>
  some (input.takeWhile belongs, input.dropWhile belongs)

def blanks : Reader Unit := do let _ ← word isBlank

def overGap (inComment : Bool) : List Char → Option (List Char)
  | [] => some []
  | '\n' :: rest => overGap false rest
  | '\r' :: '\n' :: rest => overGap false rest
  | c :: rest =>
    if inComment then (if isPlain c then overGap true rest else none)
    else if isBlank c then overGap false rest
    else if c == '#' then overGap true rest
    else some (c :: rest)

def gap : Reader Unit := fun input => (overGap false input).map fun rest => ((), rest)

def lineEnd : Reader Unit := do
  blanks
  let rest ← get
  match rest with
  | [] => return ()
  | '#' :: _ | '\n' :: _ | '\r' :: '\n' :: _ => gap
  | _ => failure

def quoted : Reader String := quoted?

def isBare (c : Char) : Bool := c.isAlphanum || c == '_' || c == '-'

def simpleName : Reader String := do
  let input ← get
  match input.head? with
  | some '"' | some '\'' => if (input.take 3).eraseDups.length = 1 ∧ 3 ≤ input.length then failure else quoted
  | _ =>
    let name ← word isBare
    if name.isEmpty then failure else return String.ofList name

-- At most so many names with dots between.
def dottedName : Nat → Reader (List String)
  | 0 => failure
  | fuel + 1 => do
    let name ← simpleName
    blanks
    if ← isNext '.' then
      take '.'
      blanks
      return name :: (← dottedName fuel)
    else return [name]

-- What stands in brackets with commas between; a comma may stand after the last item.
def items {α : Type} (item : Reader α) : Nat → Reader (List α)
  | 0 => failure
  | fuel + 1 => do
    gap
    if ← isNext ']' then
      take ']'
      return []
    let first ← item
    gap
    if ← isNext ',' then
      take ','
      return first :: (← items item fuel)
    else
      take ']'
      return [first]

-- What stands in braces, on one line and with no comma after the last member.
def members {α : Type} (member : Reader α) : Nat → Reader (List α)
  | 0 => failure
  | fuel + 1 => do
    blanks
    let first ← member
    blanks
    if ← isNext ',' then
      take ','
      return first :: (← members member fuel)
    else
      take '\x7d'
      return [first]

-- A date may have a blank before its time.
def plainWord : Reader Toml := do
  let belongs (c : Char) := c.isAlphanum || c == '_' || c == '-' || c == '+' || c == '.' || c == ':'
  let first ← word belongs
  let rest ← get
  match rest with
  | ' ' :: c :: _ =>
    if isDate first && c.isDigit then
      take ' '
      let second ← word belongs
      word? (first ++ ' ' :: second)
    else word? first
  | _ => word? first

-- How deep brackets and braces may stand in each other, and how many names a dotted name may have.
def maxDepth : Nat := 79

def plain : Reader Toml := do
  match (← get).head? with
  | some '"' | some '\'' => return .text (← quoted)
  | _ => plainWord

def value (length : Nat) : Nat → Reader Toml
  | 0 => plain
  | depth + 1 => do
    match (← get).head? with
    | some '[' =>
      take '['
      return .list (← items (value length depth) length)
    | some '\x7b' =>
      take '\x7b'
      blanks
      if ← isNext '\x7d' then
        take '\x7d'
        return .table .inline []
      let given ← members (do
        let path ← dottedName maxDepth
        take '='
        blanks
        return (path, ← value length depth)) length
      return .table .inline (← given.foldlM (fun table m => assign? m.2 m.1 table) [])
    | _ => plain

-- What a document is at: the path of the last header and the tree so far.
structure Progress where
  header : List String
  root : Members

def statement (length : Nat) (p : Progress) : Reader Progress := do
  if ← isNext '[' then
    take '['
    let again ← isNext '['
    if again then take '['
    blanks
    let path ← dottedName maxDepth
    take ']'
    if again then take ']'
    lineEnd
    return ⟨path, ← (if again then headAgain? path p.root else head? path p.root)⟩
  else
    let path ← dottedName maxDepth
    take '='
    blanks
    let v ← value length maxDepth
    lineEnd
    return ⟨p.header, ← under? p.header (assign? v path) p.root⟩

def statements (length : Nat) : Nat → Progress → Reader Members
  | 0, _ => failure
  | fuel + 1, p => do
    gap
    if (← get).isEmpty then return p.root
    statements length fuel (← statement length p)

end Reader

-- A byte order mark in front is passed over.
def ofString? (text : String) : Option Members :=
  let input := match text.toList with
    | '\ufeff' :: rest => rest
    | input => input
  let length := input.length + 1
  (Reader.statements length length ⟨[], []⟩ input).map (·.1)

end RoomLedger.Toml
