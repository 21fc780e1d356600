import RoomLedger.Json.Tree

namespace RoomLedger.Json

-- The grammar of numbers: no leading zero, digits on both sides of a point and in an exponent.
def isNumber (spelling : List Char) : Bool :=
  let unsigned := match spelling with | '-' :: rest => rest | _ => spelling
  let whole := unsigned.takeWhile Char.isDigit
  let rest := unsigned.dropWhile Char.isDigit
  let wholeOk := match whole with | [] => false | '0' :: more => more.isEmpty | _ => true
  let (fractionOk, rest) := match rest with
    | '.' :: rest => (!(rest.takeWhile Char.isDigit).isEmpty, rest.dropWhile Char.isDigit)
    | _ => (true, rest)
  let exponentOk := match rest with
    | [] => true
    | e :: rest =>
      let digits := match rest with | '+' :: more => more | '-' :: more => more | _ => rest
      (e == 'e' || e == 'E') && !digits.isEmpty && digits.all Char.isDigit
  wholeOk && fractionOk && exponentOk

inductive Token where
  | openList
  | closeList
  | openRecord
  | closeRecord
  | comma
  | colon
  | leaf (tree : Json)

-- Where the tokeniser stands; what is read of a token is kept backwards.
inductive Mode where
  | between
  | inWord (read : List Char)
  | inNumber (read : List Char)
  -- A stray byte is kept as a character that no escape can hold.
  | inText (read : List Char) (escaped stray : Bool)

def isBlank (c : Char) : Bool := c == ' ' || c == '\t' || c == '\n' || c == '\r'

def isNumberChar (c : Char) : Bool := c.isDigit || c == '-' || c == '+' || c == '.' || c == 'e' || c == 'E'

def word? : List Char → Option Json
  | ['n', 'u', 'l', 'l'] => some .null
  | ['t', 'r', 'u', 'e'] => some (.bool true)
  | ['f', 'a', 'l', 's', 'e'] => some (.bool false)
  | _ => none

def finish? : Mode → Option (List Token)
  | .between => some []
  | .inWord read => (word? read.reverse).map fun tree => [.leaf tree]
  | .inNumber read =>
    let spelling := read.reverse
    if isNumber spelling then some [.leaf (.number (String.ofList spelling))] else none
  | .inText _ _ _ => none

def start? (c : Char) : Option (List Token × Mode) :=
  if isBlank c then some ([], .between)
  else match c with
    | '[' => some ([.openList], .between)
    | ']' => some ([.closeList], .between)
    | '\x7b' => some ([.openRecord], .between)
    | '\x7d' => some ([.closeRecord], .between)
    | ',' => some ([.comma], .between)
    | ':' => some ([.colon], .between)
    | '"' => some ([], .inText [] false false)
    | _ =>
      if c == '-' || c.isDigit then some ([], .inNumber [c])
      else if c.isAlpha then some ([], .inWord [c])
      else none

def string? (spelling : List Char) (stray : Bool) : Option Token :=
  if Spelling.wellSpelled spelling then
    some (.leaf (.text (if stray then Spelling.textless else String.ofList spelling)))
  else none

-- Two passes, characters to tokens and tokens to a tree. Both walk their list once with what is
-- unfinished in a state, so that each is plain recursion on its input.
def tokens? (done : List Token) : Mode → List (Option Char) → Option (List Token)
  | mode, [] => do return ((← finish? mode).reverse ++ done).reverse
  | .inText read false _, none :: rest => tokens? done (.inText ('\ufffd' :: read) false true) rest
  | _, none :: _ => none
  | .inText read true stray, some c :: rest => tokens? done (.inText (c :: read) false stray) rest
  | .inText read false stray, some c :: rest =>
    if c == '"' then do
      tokens? ((← string? read.reverse stray) :: done) .between rest
    else tokens? done (.inText (c :: read) (c == '\\') stray) rest
  | .inWord read, some c :: rest =>
    if c.isAlphanum then tokens? done (.inWord (c :: read)) rest
    else do
      let finished ← finish? (.inWord read)
      let (started, mode) ← start? c
      tokens? (started ++ finished ++ done) mode rest
  | .inNumber read, some c :: rest =>
    if isNumberChar c then tokens? done (.inNumber (c :: read)) rest
    else do
      let finished ← finish? (.inNumber read)
      let (started, mode) ← start? c
      tokens? (started ++ finished ++ done) mode rest
  | .between, some c :: rest => do
    let (started, mode) ← start? c
    tokens? (started ++ done) mode rest

-- A list or record that is not closed yet, its parts backwards.
inductive Unclosed where
  | list (items : List Json)
  | record (members : List (String × Json)) (name : String)

inductive Expecting where
  | value
  | valueOrClose
  | name (members : List (String × Json))
  | nameOrClose
  | colon (members : List (String × Json)) (name : String)
  | commaOrClose
  | nothing (tree : Json)

structure Building where
  unclosed : List Unclosed := []
  expecting : Expecting := .value

def Building.place (tree : Json) : List Unclosed → Building
  | [] => ⟨[], .nothing tree⟩
  | .list items :: outer => ⟨.list (tree :: items) :: outer, .commaOrClose⟩
  | .record members name :: outer => ⟨.record ((name, tree) :: members) "" :: outer, .commaOrClose⟩

def Building.step (b : Building) (token : Token) : Option Building :=
  match b.expecting, token with
  | .value, .leaf tree => some (place tree b.unclosed)
  | .value, .openList => some ⟨.list [] :: b.unclosed, .valueOrClose⟩
  | .value, .openRecord => some ⟨b.unclosed, .nameOrClose⟩
  | .valueOrClose, .leaf tree => some (place tree b.unclosed)
  | .valueOrClose, .openList => some ⟨.list [] :: b.unclosed, .valueOrClose⟩
  | .valueOrClose, .openRecord => some ⟨b.unclosed, .nameOrClose⟩
  | .valueOrClose, .closeList => some (place (.list []) (b.unclosed.drop 1))
  | .nameOrClose, .leaf (.text name) => some ⟨b.unclosed, .colon [] name⟩
  | .nameOrClose, .closeRecord => some (place (.record []) b.unclosed)
  | .name members, .leaf (.text name) => some ⟨b.unclosed, .colon members name⟩
  | .colon members name, .colon => some ⟨.record members name :: b.unclosed, .value⟩
  | .commaOrClose, .comma =>
    match b.unclosed with
    | .list items :: outer => some ⟨.list items :: outer, .value⟩
    | .record members _ :: outer => some ⟨outer, .name members⟩
    | [] => none
  | .commaOrClose, .closeList =>
    match b.unclosed with
    | .list items :: outer => some (place (.list items.reverse) outer)
    | _ => none
  | .commaOrClose, .closeRecord =>
    match b.unclosed with
    | .record members _ :: outer => some (place (.record members.reverse) outer)
    | _ => none
  | _, _ => none

def ofTokens? (tokens : List Token) : Option Json := do
  let built ← tokens.foldlM Building.step {}
  match built.expecting with
  | .nothing tree => some tree
  | _ => none

def ofCharacters? (input : List (Option Char)) : Option Json := do
  ofTokens? (← tokens? [] .between input)

def ofString? (text : String) : Option Json := ofCharacters? (text.toList.map some)

end RoomLedger.Json
