import RoomLedger.Store.Key

namespace RoomLedger

structure Index (α : Type) where
  name : String
  -- No two records have the same key.
  unique : Bool
  key : α → Key

class Stored (α : Type) where
  blank : α
  number : α → Nat
  withNumber : α → Nat → α
  indices : List (Index α)
  number_withNumber : ∀ a n, number (withNumber a n) = n := by intro _ _; rfl

inductive TableFault where
  | missing (number : Nat)
  | taken (index : String) (holder : Nat)
  | noIndex (name : String)
  deriving DecidableEq, Repr

abbrev Listing := SortedSet Entry

structure Table (α : Type) where
  next : Nat
  rows : SortedMap Nat α
  listings : List Listing

namespace Table

variable {α : Type} [Stored α]

def entry (index : Index α) (row : α) : Entry := ⟨index.key row, Stored.number row⟩

def empty : Table α := ⟨0, .empty, (Stored.indices (α := α)).map fun _ => .empty⟩

def get? (t : Table α) (number : Nat) : Option α := t.rows.get? number
def size (t : Table α) : Nat := t.rows.size

def enlist (row : α) (listings : List Listing) : List Listing :=
  List.zipWith (fun index (listing : Listing) => listing.insert (entry index row)) Stored.indices listings

def delist (row : α) (listings : List Listing) : List Listing :=
  List.zipWith (fun index (listing : Listing) => listing.erase (entry index row)) Stored.indices listings

-- The entries from a key on: a scan starts here and stops where its condition first fails.
def entriesFrom (key : Key) (listing : Listing) : List Entry :=
  listing.toList.dropWhile fun e => (compare e ⟨key, 0⟩).isLT

-- The first record other than `besides` that holds a record's key in a unique index.
def clash? (t : Table α) (row : α) (besides : Option Nat) : Option TableFault :=
  (Stored.indices.zip t.listings).findSome? fun (index, listing) =>
    if index.unique then
      let key := index.key row
      let holders := (entriesFrom key listing).takeWhile fun e => e.key == key
      (holders.find? fun e => some e.number != besides).map fun e => .taken index.name e.number
    else none

-- Puts a record in, under its own number, over whatever is there.
def put (t : Table α) (row : α) : Table α :=
  let number := Stored.number row
  let listings := match t.get? number with
    | some current => delist current t.listings
    | none => t.listings
  { t with rows := t.rows.insert number row, listings := enlist row listings }

-- Adds a record made from a blank one. It gets the next number, whatever number it was given.
def create (t : Table α) (fill : α → α) : Except TableFault (α × Table α) :=
  let row := Stored.withNumber (fill Stored.blank) t.next
  match t.clash? row none with
  | some fault => .error fault
  | none => .ok (row, { t.put row with next := t.next + 1 })

-- The record keeps its number. Answers it as it was before the change.
def modify (t : Table α) (number : Nat) (change : α → α) : Except TableFault (α × Table α) :=
  match t.get? number with
  | none => .error (.missing number)
  | some before =>
    let row := Stored.withNumber (change before) number
    match t.clash? row (some number) with
    | some fault => .error fault
    | none => .ok (before, t.put row)

def remove (t : Table α) (number : Nat) : Except TableFault (α × Table α) :=
  match t.get? number with
  | none => .error (.missing number)
  | some row =>
    .ok (row, { t with rows := t.rows.erase number, listings := delist row t.listings })

def indexed (t : Table α) (name : String) : Except TableFault (Index α × Listing) :=
  match (Stored.indices.zip t.listings).find? fun pair => pair.1.name == name with
  | some pair => .ok pair
  | none => .error (.noIndex name)

-- The records whose key begins with `start`, in the order of key and number.
def startingWith (t : Table α) (name : String) (start : Key) : Except TableFault (List α) := do
  let (_, listing) ← t.indexed name
  let entries := (entriesFrom start listing).takeWhile fun e => start.isPrefixOf e.key
  return entries.filterMap fun e => t.get? e.number

def countStartingWith (t : Table α) (name : String) (start : Key) : Except TableFault Nat := do
  return (← t.startingWith name start).length

def withKey (t : Table α) (name : String) (key : Key) : Except TableFault (List α) := do
  let (index, _) ← t.indexed name
  return (← t.startingWith name key).filter fun row => index.key row == key

def find (t : Table α) (name : String) (key : Key) : Except TableFault (Option α) := do
  return (← t.withKey name key).head?

end Table

end RoomLedger
