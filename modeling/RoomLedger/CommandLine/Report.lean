import RoomLedger.Chain.Replay

namespace RoomLedger.CommandLine

def lines (texts : List String) : String := String.join (texts.map (· ++ "\n"))

def padLeft (width : Nat) (s : String) : String := String.ofList (List.replicate (width - s.length) ' ') ++ s
def padRight (width : Nat) (s : String) : String := s ++ String.ofList (List.replicate (width - s.length) ' ')

def kindText? (id : ObjectId) : Option String :=
  if id.isRelative then some "relative"
  else (Kind.ofId? id).map fun
    | .globals => "global_property"
    | .head => "dynamic_global_property"
    | k => k.name

def hexWord (n : UInt64) : String := Hex.encode (Wire.lowBytes 8 n.toNat).reverse

def idText (id : ObjectId) : String :=
  lines [id.text ++ " " ++ (kindText? id).getD "unknown",
    "  space:    " ++ Decimal.text id.space.toNat,
    "  type:     " ++ Decimal.text id.type.toNat,
    "  instance: " ++ Decimal.text id.number,
    "  packed:   0x" ++ hexWord id.pack]

def idJson (id : ObjectId) : Json :=
  .ofMembers [("id", .ofText id.text), ("space", .ofNat id.space.toNat), ("type", .ofNat id.type.toNat),
    ("instance", .ofNat id.number), ("kind", .ofOption .ofText (kindText? id)),
    ("packed", .ofNat id.pack.toNat)]

structure FeeRow where
  kind : OperationKind
  flat : Shares
  perKilobyte : Shares

def feeRows (schedule : FeeSchedule) : List FeeRow :=
  OperationKind.all.map fun k =>
    let flat := schedule.fee k.tag 0
    ⟨k, flat, schedule.fee k.tag 1024 - flat⟩

def unitsText (amount : Shares) : String :=
  let n := amount.toInt
  let places := Decimal.text (n.tmod coreUnits).natAbs
  Decimal.signedText (n.tdiv coreUnits) ++ "." ++ String.ofList (List.replicate (5 - places.length) '0')
    ++ places

def feeLine (tag name flat perKilobyte : String) : String :=
  padLeft 4 tag ++ "  " ++ padRight 26 name ++ " " ++ padLeft 14 flat ++ " " ++ padLeft 14 perKilobyte

def feesText (schedule : FeeSchedule) : String :=
  lines (feeLine "tag" "operation" "fee" "per kbyte"
    :: (feeRows schedule).map fun row =>
      feeLine (Decimal.text row.kind.tag.toNat) row.kind.name (unitsText row.flat)
        (unitsText row.perKilobyte))
  ++ if schedule.scale = FeeSchedule.unitScale then ""
    else lines ["scale: " ++ Decimal.text schedule.scale.toNat ++ "/"
      ++ Decimal.text FeeSchedule.unitScale.toNat]

def feesJson (schedule : FeeSchedule) : Json :=
  .list ((feeRows schedule).map fun row =>
    .ofMembers [("tag", Form.write row.kind.tag), ("operation", .ofText row.kind.name),
      ("fee", Form.write row.flat), ("price_per_kbyte", Form.write row.perKilobyte)])

def replayText (replay : Replay) (alike : Option Bool) (events : Option (Nat × String)) : String :=
  lines (["✓ Replay complete",
    "  Blocks:       " ++ Decimal.text replay.blocks,
    "  Transactions: " ++ Decimal.text replay.applied ++ " applied, " ++ Decimal.text replay.rejected
      ++ " rejected",
    "  Operations:   " ++ Decimal.text replay.operations,
    "  Head block:   #" ++ Decimal.text replay.head.toNat,
    "  State digest: " ++ replay.digest.hex]
  ++ (alike.map fun same => "  Determinism:  " ++ if same then "verified" else "MISMATCH").toList
  ++ (events.map fun (count, path) =>
    "  Events:       " ++ Decimal.text count ++ " written to " ++ path).toList)

def replayJson (replay : Replay) (alike : Option Bool) : Json :=
  .ofMembers (replay.members ++ (alike.map fun same => ("deterministic", .bool same)).toList)

def page (tree : Json) : String := tree.ordered.pretty ++ "\n"

end RoomLedger.CommandLine
