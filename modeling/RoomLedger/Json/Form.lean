import RoomLedger.Json.Tree
import RoomLedger.Sorted.Set

namespace RoomLedger

-- A set may repeat itself, and of several members of one name the last one counts.
class Form (α : Type) where
  write : α → Json
  read : Json → Option α

-- A type whose values can be the names of a record's members.
class NameForm (κ : Type) where
  spell : κ → String
  ofSpelling : String → Option κ

namespace Form

def readNat (bound : Nat) (tree : Json) : Option Nat := do
  match ← tree.asInt? with
  | .ofNat n => if n < bound then some n else none
  | .negSucc _ => none

instance : Form Bool where
  write := .bool
  read := Json.asBool?

instance : Form UInt8 where
  write n := .ofNat n.toNat
  read tree := (readNat UInt8.size tree).map UInt8.ofNat

instance : Form UInt32 where
  write n := .ofNat n.toNat
  read tree := (readNat UInt32.size tree).map UInt32.ofNat

instance : Form UInt64 where
  write n := .ofNat n.toNat
  read tree := (readNat UInt64.size tree).map UInt64.ofNat

instance : Form Int64 where
  write n := .ofInt n.toInt
  read tree := do
    let n ← tree.asInt?
    if -0x8000000000000000 ≤ n ∧ n < 0x8000000000000000 then some (Int64.ofInt n) else none

instance : Form String where
  write := .ofText
  read := Json.asText?

variable {κ α : Type}

instance [Form α] : Form (Option α) where
  write value := value.elim .null Form.write
  read
    | .null => some none
    | tree => (Form.read tree).map some

instance [Form α] : Form (List α) where
  write items := .list (items.map Form.write)
  read
    | .list items => items.mapM Form.read
    | _ => none

instance [Ord κ] [Std.TransOrd κ] [Std.LawfulEqOrd κ] [Form κ] : Form (SortedSet κ) where
  write s := Form.write s.toList
  read tree := (Form.read tree).map SortedSet.ofList

instance [Ord κ] [Std.TransOrd κ] [Std.LawfulEqOrd κ] [NameForm κ] [Form α] : Form (SortedMap κ α) where
  write m := .record (m.entries.map fun e => (NameForm.spell e.1, Form.write e.2))
  read
    | .record members => do
      return .ofList (← members.mapM fun m => do return (← NameForm.ofSpelling m.1, ← Form.read m.2))
    | _ => none

instance : NameForm String where
  spell := Spelling.ofText
  ofSpelling := Spelling.text?

-- A number as a name is spelled as a number: no sign, no leading zero, no escape.
def canonicalNat? (bound : Nat) (spelling : String) : Option Nat :=
  match spelling.toList with
  | '0' :: _ :: _ => none
  | digits => (Decimal.ofDigits? digits).filter fun n => n < bound

instance : NameForm UInt8 where
  spell n := Decimal.text n.toNat
  ofSpelling s := (canonicalNat? UInt8.size s).map UInt8.ofNat

instance : NameForm UInt32 where
  spell n := Decimal.text n.toNat
  ofSpelling s := (canonicalNat? UInt32.size s).map UInt32.ofNat

end Form

end RoomLedger
