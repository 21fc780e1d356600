import RoomLedger.Store.Table

namespace RoomLedger

-- What a session changed in a table, kept so that it can be reverted. A record is in at most one of
-- the three; one that is created and removed again is in none.
structure Delta (α : Type) where
  next? : Option Nat
  modified : SortedMap Nat α
  created : SortedSet Nat
  removed : SortedMap Nat α

namespace Delta

variable {α : Type}

def empty : Delta α := ⟨none, .empty, .empty, .empty⟩

instance : Inhabited (Delta α) := ⟨empty⟩

def isEmpty (d : Delta α) : Bool :=
  d.next?.isNone && d.modified.isEmpty && d.created.isEmpty && d.removed.isEmpty

-- The earliest counter is the one to go back to.
def noteNext (d : Delta α) (next : Nat) : Delta α := { d with next? := some (d.next?.getD next) }

def noteCreated (d : Delta α) (number next : Nat) : Delta α :=
  { d.noteNext next with created := d.created.insert number }

-- Of a record that the session created or already changed, the earlier state is known.
def noteModified (d : Delta α) (number : Nat) (before : α) : Delta α :=
  if d.created.contains number || d.modified.contains number then d
  else { d with modified := d.modified.insert number before }

-- A record that the session created leaves no trace.
def noteRemoved (d : Delta α) (number : Nat) (before : α) : Delta α :=
  if d.created.contains number then { d with created := d.created.erase number }
  else
    let earliest := (d.modified.get? number).getD before
    { d with modified := d.modified.erase number, removed := d.removed.insertNew number earliest }

def absorb (outer inner : Delta α) : Delta α :=
  let d := match inner.next? with
    | some next => outer.noteNext next
    | none => outer
  let d := inner.modified.entries.foldl (fun d e => d.noteModified e.1 e.2) d
  let d := { d with created := d.created.union inner.created }
  inner.removed.entries.foldl (fun d e => d.noteRemoved e.1 e.2) d

-- The table before the changes. Fails at the first created record that is not there.
def revert [Stored α] (d : Delta α) (t : Table α) : Except TableFault (Table α) := do
  let erased ← d.created.toList.foldlM (fun t number => return (← Table.remove t number).2) t
  let restored := (d.modified.values ++ d.removed.values).foldl Table.put erased
  return { restored with next := d.next?.getD restored.next }

end Delta

-- A table with the changes of each open session, innermost first.
structure Tracked (α : Type) where
  table : Table α
  deltas : List (Delta α)

namespace Tracked

variable {α : Type} [Stored α]

def empty (depth : Nat) : Tracked α := ⟨.empty, List.replicate depth .empty⟩

-- Only the innermost session takes note of a change.
def note (deltas : List (Delta α)) (change : Delta α → Delta α) : List (Delta α) :=
  match deltas with
  | [] => []
  | inner :: outer => change inner :: outer

def create (t : Tracked α) (fill : α → α) : Except TableFault (α × Tracked α) := do
  let (row, table) ← t.table.create fill
  return (row, ⟨table, note t.deltas (·.noteCreated (Stored.number row) t.table.next)⟩)

def modify (t : Tracked α) (number : Nat) (change : α → α) : Except TableFault (Tracked α) := do
  let (before, table) ← t.table.modify number change
  return ⟨table, note t.deltas (·.noteModified number before)⟩

def remove (t : Tracked α) (number : Nat) : Except TableFault (α × Tracked α) := do
  let (row, table) ← t.table.remove number
  return (row, ⟨table, note t.deltas (·.noteRemoved number row)⟩)

def push (t : Tracked α) : Tracked α := { t with deltas := .empty :: t.deltas }

def commit (t : Tracked α) : Tracked α :=
  match t.deltas with
  | inner :: outer :: rest => { t with deltas := outer.absorb inner :: rest }
  | _ => { t with deltas := [] }

def undo (t : Tracked α) : Except TableFault (Tracked α) :=
  match t.deltas with
  | [] => .ok t
  | inner :: outer => return ⟨← inner.revert t.table, outer⟩

end Tracked

end RoomLedger
