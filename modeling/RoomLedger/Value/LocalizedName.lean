import RoomLedger.Sorted.Map

namespace RoomLedger

structure LocalizedName where
  texts : SortedMap String String
  deriving DecidableEq, Inhabited

namespace LocalizedName

def empty : LocalizedName := ⟨.empty⟩

def isWellFormed (name : LocalizedName) : Bool :=
  !name.texts.isEmpty && name.texts.entries.all fun e => !e.1.isEmpty && !e.2.isEmpty

end LocalizedName

end RoomLedger
