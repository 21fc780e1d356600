import RoomLedger.Json.Tree

namespace RoomLedger.Json

mutual

def compact : Json → String
  | .null => "null"
  | .bool true => "true"
  | .bool false => "false"
  | .number spelling => spelling
  | .text spelling => "\"" ++ spelling ++ "\""
  | .list items => "[" ++ ",".intercalate (compactItems items) ++ "]"
  | .record members => "\x7b" ++ ",".intercalate (compactMembers members) ++ "\x7d"

def compactItems : List Json → List String
  | [] => []
  | item :: rest => compact item :: compactItems rest

def compactMembers : List (String × Json) → List String
  | [] => []
  | (name, value) :: rest => ("\"" ++ name ++ "\":" ++ compact value) :: compactMembers rest

end

def block (margin opening closing : String) : List String → String
  | [] => opening ++ closing
  | lines =>
    let inner := margin ++ "  "
    opening ++ "\n" ++ (",\n").intercalate (lines.map (inner ++ ·)) ++ "\n" ++ margin ++ closing

mutual

def indented (margin : String) : Json → String
  | .list items => block margin "[" "]" (indentedItems (margin ++ "  ") items)
  | .record members => block margin "\x7b" "\x7d" (indentedMembers (margin ++ "  ") members)
  | leaf => compact leaf

def indentedItems (margin : String) : List Json → List String
  | [] => []
  | item :: rest => indented margin item :: indentedItems margin rest

def indentedMembers (margin : String) : List (String × Json) → List String
  | [] => []
  | (name, value) :: rest =>
    ("\"" ++ name ++ "\": " ++ indented margin value) :: indentedMembers margin rest

end

def pretty (tree : Json) : String := indented "" tree

-- Places a member by its name; a later member takes the place of an earlier one.
def placeMember (name : String) (value : Json) : List (String × Json) → List (String × Json)
  | [] => [(name, value)]
  | (other, old) :: rest =>
    if name < other then (name, value) :: (other, old) :: rest
    else if name = other then (name, value) :: rest
    else (other, old) :: placeMember name value rest

mutual

-- The same tree with names spelled plainly, in ascending order and each once: the last one counts.
def ordered : Json → Json
  | .list items => .list (orderedItems items)
  | .record members =>
    let plain := (orderedMembers members).foldl (fun done m => placeMember m.1 m.2 done) []
    .record (plain.map fun m => (Spelling.ofText m.1, m.2))
  | .text spelling => .text (((Spelling.text? spelling).map Spelling.ofText).getD spelling)
  | leaf => leaf

def orderedItems : List Json → List Json
  | [] => []
  | item :: rest => ordered item :: orderedItems rest

def orderedMembers : List (String × Json) → List (String × Json)
  | [] => []
  | (name, value) :: rest =>
    ((Spelling.text? name).getD name, ordered value) :: orderedMembers rest

end

end RoomLedger.Json
