namespace RoomLedger.CommandLine

inductive Arity where
  | alone
  | once (fits : String → Bool)
  | repeated (fits : String → Bool)

structure CommandOption where
  long : String
  short : Option Char
  arity : Arity

structure Level where
  options : List CommandOption
  commands : List String
  plain : Nat

inductive Stop where
  | misuse
  | help
  | version
  deriving DecidableEq, Repr

-- An option that is not settled: its value is still to come, or to be looked at.
structure Pending where
  option : CommandOption
  value : Option String

structure Reading where
  given : List (String × String)
  plain : List String
  pending : Option Pending
  -- Everything that follows is plain.
  escaped : Bool

namespace Reading

def start : Reading := ⟨[], [], none, false⟩

def isGiven (r : Reading) (name : String) : Bool := r.given.any fun g => g.1 == name

def values (r : Reading) (name : String) : List String :=
  (r.given.filter fun g => g.1 == name).map (·.2)

def value? (r : Reading) (name : String) : Option String := (r.values name).head?

def awaited? (r : Reading) : Option CommandOption :=
  r.pending.bind fun p => if p.value.isNone then some p.option else none

def accept (r : Reading) (option : CommandOption) (value : String) : Except Stop Reading :=
  let accepted := { r with given := r.given ++ [(option.long, value)] }
  if option.long = "help" then .error .help
  else if option.long = "version" then .error .version
  else match option.arity with
    | .alone => if r.isGiven option.long then .error .misuse else .ok accepted
    | .once fits => if r.isGiven option.long || !fits value then .error .misuse else .ok accepted
    | .repeated fits => if fits value then .ok accepted else .error .misuse

-- Settles the pending option. This is due at the next option or plain argument, and at the end.
def settle (r : Reading) : Except Stop Reading :=
  match r.pending with
  | none => .ok r
  | some ⟨_, none⟩ => .error .misuse
  | some ⟨option, some value⟩ => { r with pending := none }.accept option value

def give (r : Reading) (option : CommandOption) (value : String) : Except Stop Reading := do
  (← r.settle).accept option value

def await (r : Reading) (option : CommandOption) : Except Stop Reading := do
  return { ← r.settle with pending := some ⟨option, none⟩ }

def addPlain (level : Level) (r : Reading) (argument : String) : Except Stop Reading := do
  let r ← r.settle
  if level.plain ≤ r.plain.length then .error .misuse
  else return { r with plain := r.plain ++ [argument] }

-- What stands after an equals sign is the value, even if it is empty.
def long (level : Level) (r : Reading) (body : List Char) : Except Stop Reading :=
  let name := String.ofList (body.takeWhile (· != '='))
  let attached := (body.dropWhile (· != '=')).tail?
  match level.options.find? fun option => option.long == name with
  | none => .error .misuse
  | some option =>
    match option.arity, attached with
    | .alone, none => r.give option ""
    | .alone, some _ => .error .misuse
    | _, none => r.await option
    | _, some value => r.give option (String.ofList value)

-- Options by their short names. The first that takes a value takes the rest.
def short (level : Level) (r : Reading) : List Char → Except Stop Reading
  | [] => .ok r
  | c :: rest =>
    match level.options.find? fun option => option.short == some c with
    | none => .error .misuse
    | some option =>
      match option.arity, rest with
      | .alone, _ => do short level (← r.give option "") rest
      | _, [] => r.await option
      | _, '=' :: value => r.give option (String.ofList value)
      | _, value => r.give option (String.ofList value)

def step (level : Level) (r : Reading) (argument : String) : Except Stop Reading :=
  if r.escaped then r.addPlain level argument
  else match argument.toList, r.awaited? with
    | '-' :: _ :: _, some _ => .error .misuse
    | _, some option => .ok { r with pending := some ⟨option, some argument⟩ }
    | ['-', '-'], none => .ok { r with escaped := true }
    | '-' :: '-' :: body, none => r.long level body
    | '-' :: c :: rest, none => r.short level (c :: rest)
    | _, none => r.addPlain level argument

end Reading

-- An option before a command is settled after it.
def Level.read (level : Level) (r : Reading) :
    List String → Except Stop (Reading × Option (String × List String))
  | [] => do return (← r.settle, none)
  | argument :: rest =>
    if !r.escaped && r.awaited?.isNone && level.commands.contains argument then
      .ok (r, some (argument, rest))
    else do level.read (← r.step level argument) rest

end RoomLedger.CommandLine
