import RoomLedger.Text.Decimal

namespace RoomLedger

open Std

structure ObjectId where
  space : UInt8
  type : UInt8
  number : Nat
  deriving DecidableEq, Inhabited, Repr

namespace ObjectId

-- The largest number with a packed form of its own.
def maxNumber : Nat := 0xFFFFFFFFFFFF

def parts (id : ObjectId) : List Nat := [id.space.toNat, id.type.toNat, id.number]

theorem parts_injective {a b : ObjectId} (h : a.parts = b.parts) : a = b := by
  obtain ⟨s, t, n⟩ := a
  obtain ⟨s', t', n'⟩ := b
  simp only [parts, List.cons.injEq, and_true] at h
  obtain ⟨hs, ht, rfl⟩ := h
  cases UInt8.toNat_inj.mp hs
  cases UInt8.toNat_inj.mp ht
  rfl

instance : Ord ObjectId := ⟨compareOn parts⟩
instance : TransOrd ObjectId := inferInstanceAs (TransCmp (compareOn parts))
instance : LawfulEqOrd ObjectId where
  compare_self := ReflOrd.compare_self (α := List Nat)
  eq_of_compare h := parts_injective (LawfulEqOrd.eq_of_compare (α := List Nat) h)

-- A reference to the result of an earlier operation of the same transaction.
def isRelative (id : ObjectId) : Bool := id.space == 0

def hasClass (id : ObjectId) (space type : UInt8) : Bool := id.space == space && id.type == type

-- The packed form; a number beyond 48 bits loses its high bits.
def pack (id : ObjectId) : UInt64 :=
  (id.space.toUInt64 <<< 56) ||| (id.type.toUInt64 <<< 48) ||| UInt64.ofNat (id.number % (maxNumber + 1))

def unpack (word : UInt64) : ObjectId :=
  ⟨(word >>> 56).toUInt8, (word >>> 48).toUInt8, word.toNat % (maxNumber + 1)⟩

def text (id : ObjectId) : String :=
  Decimal.text id.space.toNat ++ "." ++ Decimal.text id.type.toNat ++ "." ++ Decimal.text id.number

instance : ToString ObjectId := ⟨text⟩

def debugText (id : ObjectId) : String := "ObjectId(" ++ id.text ++ ")"

end ObjectId

end RoomLedger
