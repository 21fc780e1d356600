import RoomLedger.Operation.Basic

namespace RoomLedger

structure FeeParameters where
  flat : UInt64
  perKilobyte : UInt64
  deriving DecidableEq, Inhabited, Repr

instance : Laid FeeParameters where
  Tuple := UInt64 × UInt64 × Unit
  layout := .field "fee" none <| .field "price_per_kbyte" (some 0) .done
  toTuple p := (p.flat, p.perKilobyte, ())
  ofTuple := fun (flat, perKilobyte, _) => ⟨flat, perKilobyte⟩

namespace Fee

def maxFee : Nat := 0x7FFFFFFFFFFFFFFF

def clamp (fee : Nat) : Shares := Int64.ofNat (min fee maxFee)

end Fee

namespace FeeParameters

def fee (p : FeeParameters) (bytes : Nat) : Shares :=
  Fee.clamp (p.flat.toNat + bytes * p.perKilobyte.toNat / 1024)

-- What a tag is charged where no schedule says otherwise, in whole units of the core asset.
def standard (tag : UInt8) : FeeParameters :=
  let units (n : Nat) := UInt64.ofNat (n * coreUnits)
  match OperationKind.ofTag? tag with
  | some .transfer => ⟨units 20, units 10⟩
  | some .createAccount => ⟨units 5, units 1⟩
  | some .createRoom => ⟨units 20, 0⟩
  | some .updateRoom => ⟨units 5, 0⟩
  | some .addParticipant => ⟨units 5, 0⟩
  | some .rotateKey => ⟨units 10, 0⟩
  | _ => ⟨units 1, 0⟩

end FeeParameters

-- Fee parameters by tag, and a scale in units of 1/10000.
structure FeeSchedule where
  parameters : SortedMap UInt8 FeeParameters
  scale : UInt32
  deriving DecidableEq

namespace FeeSchedule

def unitScale : UInt32 := 10000

instance : Laid FeeSchedule where
  Tuple := SortedMap UInt8 FeeParameters × UInt32 × Unit
  layout := .field "parameters" (some .empty) <| .field "scale" (some unitScale) .done
  toTuple s := (s.parameters, s.scale, ())
  ofTuple := fun (parameters, scale, _) => ⟨parameters, scale⟩

def standard : FeeSchedule :=
  ⟨.ofList (OperationKind.all.map fun k => (k.tag, .standard k.tag)), unitScale⟩

def free : FeeSchedule := ⟨.ofList (OperationKind.all.map fun k => (k.tag, ⟨0, 0⟩)), unitScale⟩

instance : Inhabited FeeSchedule := ⟨standard⟩

def parametersFor (s : FeeSchedule) (tag : UInt8) : FeeParameters :=
  (s.parameters.get? tag).getD (.standard tag)

def set (s : FeeSchedule) (tag : UInt8) (parameters : FeeParameters) : FeeSchedule :=
  { s with parameters := s.parameters.insert tag parameters }

-- The fee of a tag and a size. A fee is bounded before it is scaled, and again after.
def fee (s : FeeSchedule) (tag : UInt8) (bytes : Nat) : Shares :=
  let base := (s.parametersFor tag).fee bytes
  if s.scale = unitScale then base
  else Fee.clamp (base.toInt.toNat * s.scale.toNat / unitScale.toNat)

end FeeSchedule

def Operation.scheduledFee (op : Operation) (schedule : FeeSchedule) : Shares :=
  schedule.fee op.tag op.dataSize

end RoomLedger
