import RoomLedger.Sorted.Set

namespace RoomLedger

namespace Wire

inductive Fault where
  | unknownOperation (tag : UInt8)
  | unknownResult (tag : UInt8)
  -- Too few bytes, or bytes that no value is written as.
  | malformed
  deriving DecidableEq, Repr

abbrev Reader (α : Type) := StateT (List UInt8) (Except Fault) α

end Wire

-- Values are written without names or marks: integers in a fixed number of bytes, lowest first;
-- texts, lists, sets and maps after their count in eight bytes.
class Wire (α : Type) where
  write : α → List UInt8
  read : Wire.Reader α

namespace Wire

def malformed {α : Type} : Reader α := fun _ => .error .malformed

def lowBytes : Nat → Nat → List UInt8
  | 0, _ => []
  | count + 1, n => UInt8.ofNat n :: lowBytes count (n / 256)

def ofLowBytes : List UInt8 → Nat
  | [] => 0
  | b :: rest => b.toNat + 256 * ofLowBytes rest

def take (count : Nat) : Reader (List UInt8) := fun bytes =>
  let (taken, rest) := bytes.splitAt count
  if taken.length = count then .ok (taken, rest) else .error .malformed

def readNat (count : Nat) : Reader Nat := do return ofLowBytes (← take count)

instance : Wire UInt8 where
  write b := [b]
  read
    | [] => .error .malformed
    | b :: rest => .ok (b, rest)

instance : Wire Bool where
  write b := [if b then 1 else 0]
  read
    | 0 :: rest => .ok (false, rest)
    | 1 :: rest => .ok (true, rest)
    | _ => .error .malformed

instance : Wire UInt32 where
  write n := lowBytes 4 n.toNat
  read := do return UInt32.ofNat (← readNat 4)

instance : Wire UInt64 where
  write n := lowBytes 8 n.toNat
  read := do return UInt64.ofNat (← readNat 8)

instance : Wire Int64 where
  write n := Wire.write n.toUInt64
  read := do return (← Wire.read (α := UInt64)).toInt64

def writeCount (n : Nat) : List UInt8 := lowBytes 8 n

def readCount : Reader Nat := readNat 8

def utf8 (s : String) : List UInt8 := s.toUTF8.data.toList

def ofUtf8? (bytes : List UInt8) : Option String := String.fromUTF8? ⟨bytes.toArray⟩

-- The character that bytes begin with, and the number of its bytes after the first.
def firstCharacter? (bytes : List UInt8) : Option (Char × Nat) :=
  [0, 1, 2, 3].findSome? fun more => do
    return (← (← ofUtf8? (bytes.take (more + 1))).toList.head?, more)

-- As many bytes as belong to the last character are passed over.
def charactersAfter : Nat → List UInt8 → List (Option Char)
  | _, [] => []
  | passed + 1, _ :: rest => charactersAfter passed rest
  | 0, b :: rest =>
    match firstCharacter? (b :: rest) with
    | some (c, more) => some c :: charactersAfter more rest
    | none => none :: charactersAfter 0 rest

def characters (bytes : List UInt8) : List (Option Char) := charactersAfter 0 bytes

instance : Wire String where
  write s :=
    let bytes := utf8 s
    writeCount bytes.length ++ bytes
  read := do
    match ofUtf8? (← take (← readCount)) with
    | some s => return s
    | none => malformed

variable {κ α : Type}

instance [Wire α] : Wire (Option α) where
  write
    | none => [0]
    | some a => 1 :: Wire.write a
  read := do
    match ← Wire.read (α := UInt8) with
    | 0 => return none
    | 1 => return some (← Wire.read)
    | _ => malformed

def readMany (read : Reader α) : Nat → Reader (List α)
  | 0 => return []
  | count + 1 => do return (← read) :: (← readMany read count)

instance [Wire α] : Wire (List α) where
  write items := writeCount items.length ++ items.flatMap Wire.write
  read := do readMany Wire.read (← readCount)

instance [Wire κ] [Wire α] : Wire (κ × α) where
  write pair := Wire.write pair.1 ++ Wire.write pair.2
  read := do return (← Wire.read, ← Wire.read)

-- Whatever order the keys come in, and however often, the value is the map.
instance [Ord κ] [Std.TransOrd κ] [Std.LawfulEqOrd κ] [Wire κ] [Wire α] : Wire (SortedMap κ α) where
  write m := Wire.write m.entries
  read := do return .ofList (← Wire.read)

instance [Ord κ] [Std.TransOrd κ] [Std.LawfulEqOrd κ] [Wire κ] : Wire (SortedSet κ) where
  write s := Wire.write s.toList
  read := do return .ofList (← Wire.read)

-- The value at the front of the bytes; what follows it is left aside.
def decode [Wire α] (bytes : List UInt8) : Except Fault α := (Wire.read.run bytes).map (·.1)

end Wire

end RoomLedger
