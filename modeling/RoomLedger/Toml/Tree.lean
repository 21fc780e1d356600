namespace RoomLedger

inductive TableOrigin where
  -- From a longer header that passes through it; its own header may still come.
  | passed
  -- From a dotted name, which other dotted names may extend.
  | dotted
  | headed
  | inline
  deriving DecidableEq

inductive Toml where
  | text (s : String)
  | integer (n : Int)
  -- A number with a fraction or an exponent, as it is spelled.
  | float (spelling : String)
  | bool (value : Bool)
  | moment (spelling : String)
  | list (items : List Toml)
  | table (origin : TableOrigin) (members : List (String × Toml))
  -- Tables under one header that is repeated, the last one first.
  | tables (members : List (List (String × Toml)))
  deriving Inhabited

namespace Toml

abbrev Members := List (String × Toml)

def find? (name : String) (members : Members) : Option Toml :=
  (members.find? fun m => m.1 == name).map (·.2)

def replace (name : String) (value : Toml) (members : Members) : Members :=
  members.map fun m => if m.1 == name then (name, value) else m

def add? (name : String) (value : Toml) (members : Members) : Option Members :=
  if (find? name members).isSome then none else some (members ++ [(name, value)])

-- Tables that are missing on the way are made, and belong to the header.
-- Changes the members of the table under a header, or of the last one if it is repeated.
def under? : List String → (Members → Option Members) → Members → Option Members
  | [], change, members => change members
  | name :: path, change, members =>
    match find? name members with
    | none => do return members ++ [(name, .table .passed (← under? path change []))]
    | some (.table .inline _) => none
    | some (.table origin inner) => do return replace name (.table origin (← under? path change inner)) members
    | some (.tables (last :: earlier)) => do
      return replace name (.tables ((← under? path change last) :: earlier)) members
    | some _ => none

-- A dotted name ends in a table of dotted names, and passes through none that has a header.
def assign? (value : Toml) : List String → Members → Option Members
  | [], _ => none
  | [name], members => add? name value members
  | name :: path, members =>
    match find? name members with
    | none => do return members ++ [(name, .table .dotted (← assign? value path []))]
    | some (.table origin inner) =>
      if origin = .dotted ∨ origin = .passed ∧ 1 < path.length then do
        return replace name (.table origin (← assign? value path inner)) members
      else none
    | some (.tables (last :: earlier)) =>
      if 1 < path.length then do
        return replace name (.tables ((← assign? value path last) :: earlier)) members
      else none
    | some _ => none

def head? (path : List String) (root : Members) : Option Members := do
  let name ← path.getLast?
  under? path.dropLast (fun members =>
    match find? name members with
    | none => some (members ++ [(name, .table .headed [])])
    | some (.table .passed inner) => some (replace name (.table .headed inner) members)
    | some _ => none) root

def headAgain? (path : List String) (root : Members) : Option Members := do
  let name ← path.getLast?
  under? path.dropLast (fun members =>
    match find? name members with
    | none => some (members ++ [(name, .tables [[]])])
    | some (.tables earlier) => some (replace name (.tables ([] :: earlier)) members)
    | some _ => none) root

end Toml

end RoomLedger
