import RoomLedger.Layout
import RoomLedger.Value.Funds
import RoomLedger.Value.Timestamp
import RoomLedger.Value.LocalizedName
import RoomLedger.Digest.Digest

namespace RoomLedger

-- In binary an object id is its packed word, and an id of a fixed kind its number alone.
instance : Wire ObjectId where
  write id := Wire.write id.pack
  read := do return .unpack (← Wire.read)

instance : Form ObjectId where
  write id := .ofText id.text
  read tree := do (ObjectId.parse (← tree.asText?)).toOption

instance : NameForm ObjectId where
  spell id := Spelling.ofText id.text
  ofSpelling s := do (ObjectId.parse (← Spelling.text? s)).toOption

instance {k : Kind} : Wire (RecordId k) where
  write r := Wire.lowBytes 8 r.number
  read := do return ⟨← Wire.readNat 8⟩

instance {k : Kind} : Form (RecordId k) where
  write r := .ofText r.text
  read tree := do (RecordId.parse (← tree.asText?)).toOption

instance {k : Kind} : NameForm (RecordId k) where
  spell r := Spelling.ofText r.text
  ofSpelling s := do (RecordId.parse (← Spelling.text? s)).toOption

instance : Laid Funds where
  Tuple := Shares × AssetId × Unit
  layout := .field "amount" none <| .field "asset_id" none .done
  toTuple f := (f.amount, f.asset, ())
  ofTuple := fun (amount, asset, _) => ⟨amount, asset⟩

instance : Wire Timestamp where
  write t := Wire.write t.seconds
  read := do return ⟨← Wire.read⟩

instance : Form Timestamp where
  write t := Form.write t.seconds
  read tree := (Form.read tree).map Timestamp.mk

instance : Wire LocalizedName where
  write name := Wire.write name.texts
  read := do return ⟨← Wire.read⟩

instance : Form LocalizedName where
  write name := Form.write name.texts
  read tree := (Form.read tree).map LocalizedName.mk

end RoomLedger
