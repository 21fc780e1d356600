import RoomLedger.Value.Forms

namespace RoomLedger

structure Touched where
  created : SortedSet ObjectId
  updated : SortedSet ObjectId
  removed : SortedSet ObjectId
  deriving DecidableEq, Inhabited

instance : Laid Touched where
  Tuple := SortedSet ObjectId × SortedSet ObjectId × SortedSet ObjectId × Unit
  layout := .field "new_objects" none <| .field "updated_objects" none <|
    .field "removed_objects" none .done
  toTuple t := (t.created, t.updated, t.removed, ())
  ofTuple := fun (created, updated, removed, _) => ⟨created, updated, removed⟩

inductive Outcome where
  | nothing
  | object (id : ObjectId)
  | funds (amount : Funds)
  | touched (ids : Touched)
  deriving DecidableEq, Inhabited

namespace Outcome

def tag : Outcome → UInt8
  | nothing => 0
  | object _ => 1
  | funds _ => 2
  | touched _ => 3

-- What a later operation means by a relative id: the object, or the lowest new one.
def primary? : Outcome → Option ObjectId
  | object id => some id
  | touched ids => ids.created.toList.head?
  | _ => none

instance : Wire Outcome where
  write outcome := outcome.tag :: match outcome with
    | nothing => []
    | object id => Wire.write id
    | funds amount => Wire.write amount
    | touched ids => Wire.write ids
  read := do
    let tag ← Wire.read (α := UInt8)
    match tag with
    | 0 => return nothing
    | 1 => return object (← Wire.read)
    | 2 => return funds (← Wire.read)
    | 3 => return touched (← Wire.read)
    | _ => fun _ => .error (.unknownResult tag)

instance : Form Outcome where
  write outcome := .list [Form.write outcome.tag, match outcome with
    | nothing => .null
    | object id => Form.write id
    | funds amount => Form.write amount
    | touched ids => Form.write ids]
  read
    | .list [tag, payload] => do
      match ← Form.read (α := UInt8) tag, payload with
      | 0, .null => some nothing
      | 1, tree => (Form.read tree).map object
      | 2, tree => (Form.read tree).map funds
      | 3, tree => (Form.read tree).map touched
      | _, _ => none
    | _ => none

end Outcome

end RoomLedger
