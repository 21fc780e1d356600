import RoomLedger.Value.Error

namespace RoomLedger

open Std

inductive Kind where
  | account
  | asset
  | sport
  | eventGroup
  | room
  | participant
  | epochKey
  | globals
  | head
  | supply
  | balance
  deriving DecidableEq, Inhabited, Repr

namespace Kind

def all : List Kind :=
  [account, asset, sport, eventGroup, room, participant, epochKey, globals, head, supply, balance]

-- Space 1 holds what operations refer to, space 2 what the ledger keeps for itself.
def space : Kind → UInt8
  | globals | head | supply | balance => 2
  | _ => 1

def type : Kind → UInt8
  | account => 2
  | asset => 3
  | sport => 20
  | eventGroup => 21
  | room => 24
  | participant => 25
  | epochKey => 26
  | globals => 0
  | head => 1
  | supply => 3
  | balance => 5

def name : Kind → String
  | account => "account"
  | asset => "asset"
  | sport => "sport"
  | eventGroup => "event_group"
  | room => "room"
  | participant => "room_participant"
  | epochKey => "room_key_epoch"
  | globals => "global_properties"
  | head => "dynamic_global_properties"
  | supply => "asset_dynamic_data"
  | balance => "account_balance"

def ofName? (name : String) : Option Kind := all.find? fun k => k.name == name

def id (k : Kind) (number : Nat) : ObjectId := ⟨k.space, k.type, number⟩

def owns (k : Kind) (id : ObjectId) : Bool := id.hasClass k.space k.type

def ofId? (id : ObjectId) : Option Kind := all.find? fun k => k.owns id

theorem mem_all (k : Kind) : k ∈ all := by cases k <;> decide

theorem owns_iff (k : Kind) (id : ObjectId) : k.owns id = true ↔ id = k.id id.number := by
  obtain ⟨s, t, n⟩ := id
  simp [owns, ObjectId.hasClass, Kind.id]

theorem eq_of_owns {k j : Kind} {id : ObjectId} (hk : k.owns id) (hj : j.owns id) : k = j := by
  have hk := (owns_iff k id).mp hk
  have hj := (owns_iff j id).mp hj
  rw [hk] at hj
  simp only [Kind.id, ObjectId.mk.injEq, and_true] at hj
  revert hj
  cases k <;> cases j <;> decide

end Kind

structure RecordId (k : Kind) where
  number : Nat
  deriving DecidableEq, Inhabited, Repr

namespace RecordId

variable {k : Kind}

instance : Ord (RecordId k) := ⟨compareOn number⟩
instance : TransOrd (RecordId k) := inferInstanceAs (TransCmp (compareOn number))
instance : LawfulEqOrd (RecordId k) where
  compare_self := ReflOrd.compare_self (α := Nat)
  eq_of_compare {a b} h := by
    obtain ⟨m⟩ := a
    obtain ⟨n⟩ := b
    cases LawfulEqOrd.eq_of_compare (α := Nat) h
    rfl

def id (r : RecordId k) : ObjectId := k.id r.number
def text (r : RecordId k) : String := r.id.text

instance : CoeOut (RecordId k) ObjectId := ⟨id⟩
instance : ToString (RecordId k) := ⟨text⟩

def ofId (id : ObjectId) : Except ValueError (RecordId k) :=
  if k.owns id then .ok ⟨id.number⟩ else .error (.wrongClass k.space k.type id)

def parse (text : String) : Except ValueError (RecordId k) := do ofId (← ObjectId.parse text)

end RecordId

abbrev AccountId := RecordId .account
abbrev AssetId := RecordId .asset
abbrev SportId := RecordId .sport
abbrev EventGroupId := RecordId .eventGroup
abbrev RoomId := RecordId .room
abbrev ParticipantId := RecordId .participant
abbrev EpochKeyId := RecordId .epochKey
abbrev GlobalsId := RecordId .globals
abbrev HeadId := RecordId .head
abbrev SupplyId := RecordId .supply
abbrev BalanceId := RecordId .balance

-- The account that issues the core asset.
def committeeAccount : AccountId := ⟨0⟩
-- The account that runs sports and event groups.
def witnessAccount : AccountId := ⟨1⟩
def coreAsset : AssetId := ⟨0⟩

end RoomLedger
