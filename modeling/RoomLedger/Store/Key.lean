import RoomLedger.Value.RecordId
import RoomLedger.Sorted.Set

namespace RoomLedger

open Std

inductive KeyPart where
  | number (n : Nat)
  | text (s : String)
  | id (id : ObjectId)
  deriving DecidableEq, Inhabited, Repr

namespace KeyPart

-- Numbers come before texts and texts before ids.
def rank : KeyPart → Nat
  | number _ => 0
  | text _ => 1
  | id _ => 2

def number? : KeyPart → Option Nat
  | number n => some n
  | _ => none

def text? : KeyPart → Option String
  | text s => some s
  | _ => none

def id? : KeyPart → Option ObjectId
  | id i => some i
  | _ => none

def order : KeyPart → KeyPart → Ordering :=
  compareLex (compareOn rank) (compareLex (compareOn number?)
    (compareLex (compareOn text?) (compareOn id?)))

instance : Ord KeyPart := ⟨order⟩
instance : TransOrd KeyPart := inferInstanceAs (TransCmp (compareLex (compareOn rank)
  (compareLex (compareOn number?) (compareLex (compareOn text?) (compareOn id?)))))

instance : LawfulEqOrd KeyPart where
  compare_self := ReflOrd.compare_self (α := KeyPart)
  eq_of_compare {a b} h := by
    have h : order a b = .eq := h
    simp only [order, compareLex_eq_eq, compareOn] at h
    obtain ⟨hr, hn, ht, hi⟩ := h
    have hr := LawfulEqOrd.eq_of_compare hr
    have hn := LawfulEqOrd.eq_of_compare hn
    have ht := LawfulEqOrd.eq_of_compare ht
    have hi := LawfulEqOrd.eq_of_compare hi
    cases a <;> cases b <;> simp_all [rank, number?, text?, id?]

end KeyPart

-- Compared part by part: the keys that extend another one stand right after it, which is what a
-- scan of a common beginning needs.
abbrev Key := List KeyPart

structure Entry where
  key : Key
  number : Nat
  deriving DecidableEq, Inhabited, Repr

namespace Entry

def order : Entry → Entry → Ordering := compareLex (compareOn key) (compareOn number)

instance : Ord Entry := ⟨order⟩
instance : TransOrd Entry := inferInstanceAs (TransCmp (compareLex (compareOn key) (compareOn number)))

instance : LawfulEqOrd Entry where
  compare_self := ReflOrd.compare_self (α := Entry)
  eq_of_compare {a b} h := by
    have h : order a b = .eq := h
    simp only [order, compareLex_eq_eq, compareOn] at h
    obtain ⟨hk, hn⟩ := h
    have hk := LawfulEqOrd.eq_of_compare (α := Key) hk
    have hn := LawfulEqOrd.eq_of_compare (α := Nat) hn
    cases a; cases b; simp_all

end Entry

end RoomLedger
