import RoomLedger.Json.Form
import RoomLedger.Wire.Basic

namespace RoomLedger

-- The fields of a structure in declaration order. Each has a name, and the value that stands for it
-- where the JSON form leaves it out, if it may be left out.
inductive Layout : Type → Type 1 where
  | done : Layout Unit
  | field {α β : Type} [Wire α] [Form α] (name : String) (absent : Option α) (rest : Layout β) :
      Layout (α × β)

namespace Layout

variable {τ : Type}

def write {τ : Type} : Layout τ → τ → List UInt8
  | .done, _ => []
  | @field _ _ _ _ _ _ rest, (a, b) => Wire.write a ++ rest.write b

def read {τ : Type} : Layout τ → Wire.Reader τ
  | .done => return ()
  | @field _ _ _ _ _ _ rest => do return (← Wire.read, ← rest.read)

def members {τ : Type} : Layout τ → τ → List (String × Json)
  | .done, _ => []
  | @field _ _ _ _ name _ rest, (a, b) => (Spelling.ofText name, Form.write a) :: rest.members b

-- A name that stands twice is a fault; names that no field has are passed over.
def ofMembers {τ : Type} (members : List (String × Json)) : Layout τ → Option τ
  | .done => some ()
  | @field _ _ _ _ name absent rest => do
    let a ← match members.filter fun m => m.1 == name with
      | [] => absent
      | [m] => Form.read m.2
      | _ => none
    return (a, ← rest.ofMembers members)

def ofItems {τ : Type} : List Json → Layout τ → Option τ
  | [], .done => some ()
  | _ :: _, .done => none
  | [], @field _ _ _ _ _ absent rest => do return (← absent, ← rest.ofItems [])
  | item :: items, @field _ _ _ _ _ _ rest => do return (← Form.read item, ← rest.ofItems items)

def toJson (layout : Layout τ) (value : τ) : Json := .record (layout.members value)

def ofJson? (layout : Layout τ) : Json → Option τ
  | .record members => do
    let named ← members.mapM fun m => do return (← Spelling.text? m.1, m.2)
    layout.ofMembers named
  | .list items => layout.ofItems items
  | _ => none

end Layout

class Laid (σ : Type) where
  Tuple : Type
  layout : Layout Tuple
  toTuple : σ → Tuple
  ofTuple : Tuple → σ
  ofTuple_toTuple : ∀ s, ofTuple (toTuple s) = s := by intro _; rfl
  toTuple_ofTuple : ∀ t, toTuple (ofTuple t) = t := by intro _; rfl

namespace Laid

variable {σ : Type} [Laid σ]

instance : Wire σ where
  write s := (layout (σ := σ)).write (toTuple s)
  read := do return ofTuple (← (layout (σ := σ)).read)

instance : Form σ where
  write s := (layout (σ := σ)).toJson (toTuple s)
  read tree := ((layout (σ := σ)).ofJson? tree).map ofTuple

end Laid

end RoomLedger
