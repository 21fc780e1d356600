import RoomLedger.Value.RecordId

namespace RoomLedger

structure PerKind (F : Kind → Type) where
  account : F .account
  asset : F .asset
  sport : F .sport
  eventGroup : F .eventGroup
  room : F .room
  participant : F .participant
  epochKey : F .epochKey
  globals : F .globals
  head : F .head
  supply : F .supply
  balance : F .balance

namespace PerKind

variable {F G : Kind → Type}

def get (p : PerKind F) : (k : Kind) → F k
  | .account => p.account
  | .asset => p.asset
  | .sport => p.sport
  | .eventGroup => p.eventGroup
  | .room => p.room
  | .participant => p.participant
  | .epochKey => p.epochKey
  | .globals => p.globals
  | .head => p.head
  | .supply => p.supply
  | .balance => p.balance

def set (p : PerKind F) : (k : Kind) → F k → PerKind F
  | .account, a => { p with account := a }
  | .asset, a => { p with asset := a }
  | .sport, a => { p with sport := a }
  | .eventGroup, a => { p with eventGroup := a }
  | .room, a => { p with room := a }
  | .participant, a => { p with participant := a }
  | .epochKey, a => { p with epochKey := a }
  | .globals, a => { p with globals := a }
  | .head, a => { p with head := a }
  | .supply, a => { p with supply := a }
  | .balance, a => { p with balance := a }

def ofFn (f : (k : Kind) → F k) : PerKind F :=
  ⟨f .account, f .asset, f .sport, f .eventGroup, f .room, f .participant, f .epochKey, f .globals,
    f .head, f .supply, f .balance⟩

@[simp] theorem get_ofFn (f : (k : Kind) → F k) (k : Kind) : (ofFn f).get k = f k := by cases k <;> rfl

@[simp] theorem get_set_self (p : PerKind F) (k : Kind) (a : F k) : (p.set k a).get k = a := by
  cases k <;> rfl

theorem get_set_of_ne (p : PerKind F) {k j : Kind} (h : j ≠ k) (a : F k) :
    (p.set k a).get j = p.get j := by
  cases k <;> cases j <;> first | rfl | exact absurd rfl h

theorem ext_get {p q : PerKind F} (same : ∀ k, p.get k = q.get k) : p = q := by
  obtain ⟨⟩ := p
  obtain ⟨⟩ := q
  simp only [mk.injEq]
  exact ⟨same .account, same .asset, same .sport, same .eventGroup, same .room, same .participant,
    same .epochKey, same .globals, same .head, same .supply, same .balance⟩

end PerKind

end RoomLedger
