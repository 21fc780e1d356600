import RoomLedger.CommandLine.Report
import RoomLedger.Proofs.ExactShares

namespace RoomLedger

namespace Fee

theorem toInt_clamp (fee : Nat) : (clamp fee).toInt = (min maxFee fee : Nat) := by
  rw [clamp, Int64.toInt_ofNat_of_lt (by unfold maxFee; omega), Nat.min_comm]

theorem clamp_of_small {fee : Nat} (small : fee ≤ maxFee) : (clamp fee).toInt = fee := by
  rw [toInt_clamp, Nat.min_eq_right small]

-- The bound, the quotients rounded down, and the bound again.
def exact (flat perKilobyte scale bytes : Nat) : Nat :=
  min maxFee (min maxFee (flat + bytes * perKilobyte / 1024) * scale / 10000)

theorem exact_le (flat perKilobyte scale bytes : Nat) : exact flat perKilobyte scale bytes ≤ maxFee :=
  Nat.min_le_left ..

theorem exact_mono {flat flat' perKilobyte perKilobyte' scale scale' bytes bytes' : Nat} (flats : flat ≤ flat')
    (prices : perKilobyte ≤ perKilobyte') (scales : scale ≤ scale') (sizes : bytes ≤ bytes') :
    exact flat perKilobyte scale bytes ≤ exact flat' perKilobyte' scale' bytes' := by
  have data : bytes * perKilobyte / 1024 ≤ bytes' * perKilobyte' / 1024 :=
    Nat.div_le_div_right (Nat.mul_le_mul sizes prices)
  have base : min maxFee (flat + bytes * perKilobyte / 1024) ≤ min maxFee (flat' + bytes' * perKilobyte' / 1024) :=
    min_le_min_left maxFee (Nat.add_le_add flats data)
  exact min_le_min_left maxFee (Nat.div_le_div_right (Nat.mul_le_mul base scales))

end Fee

namespace FeeParameters

theorem toInt_fee (p : FeeParameters) (bytes : Nat) :
    (p.fee bytes).toInt = (min Fee.maxFee (p.flat.toNat + bytes * p.perKilobyte.toNat / 1024) : Nat) :=
  Fee.toInt_clamp _

theorem toNat_fee (p : FeeParameters) (bytes : Nat) :
    (p.fee bytes).toInt.toNat = min Fee.maxFee (p.flat.toNat + bytes * p.perKilobyte.toNat / 1024) := by
  rw [toInt_fee, Int.toNat_natCast]

end FeeParameters

namespace FeeSchedule

-- At the scale of one, scaling leaves a fee as it is.
theorem fee_eq_clamp (s : FeeSchedule) (tag : UInt8) (bytes : Nat) : s.fee tag bytes =
    Fee.clamp (((s.parametersFor tag).fee bytes).toInt.toNat * s.scale.toNat / unitScale.toNat) := by
  unfold fee
  dsimp only
  split
  · rename_i unscaled
    rw [unscaled, Nat.mul_div_cancel _ (by decide), FeeParameters.toNat_fee]
    refine Int64.toInt_inj.mp ?_
    rw [Fee.clamp_of_small (Nat.min_le_left ..), FeeParameters.toInt_fee]
  · rfl

theorem toInt_fee (s : FeeSchedule) (tag : UInt8) (bytes : Nat) : (s.fee tag bytes).toInt =
    Fee.exact (s.parametersFor tag).flat.toNat (s.parametersFor tag).perKilobyte.toNat s.scale.toNat bytes := by
  rw [fee_eq_clamp, Fee.toInt_clamp, FeeParameters.toNat_fee]
  rfl

theorem fee_bounds (s : FeeSchedule) (tag : UInt8) (bytes : Nat) :
    0 ≤ (s.fee tag bytes).toInt ∧ (s.fee tag bytes).toInt ≤ Fee.maxFee := by
  rw [toInt_fee]
  exact ⟨Int.natCast_nonneg _, Int.ofNat_le.mpr (Fee.exact_le ..)⟩

theorem fee_mono {s s' : FeeSchedule} {tag tag' : UInt8} {bytes bytes' : Nat}
    (flats : (s.parametersFor tag).flat ≤ (s'.parametersFor tag').flat)
    (prices : (s.parametersFor tag).perKilobyte ≤ (s'.parametersFor tag').perKilobyte)
    (scales : s.scale ≤ s'.scale) (sizes : bytes ≤ bytes') : s.fee tag bytes ≤ s'.fee tag' bytes' := by
  rw [Int64.le_iff_toInt_le, toInt_fee, toInt_fee]
  exact Int.ofNat_le.mpr (Fee.exact_mono (UInt64.le_iff_toNat_le.mp flats) (UInt64.le_iff_toNat_le.mp prices)
    (UInt32.le_iff_toNat_le.mp scales) sizes)

theorem toInt_fee_sub (s : FeeSchedule) (tag : UInt8) (bytes bytes' : Nat) :
    (s.fee tag bytes - s.fee tag bytes').toInt = (s.fee tag bytes).toInt - (s.fee tag bytes').toInt := by
  obtain ⟨low, high⟩ := s.fee_bounds tag bytes
  obtain ⟨low', high'⟩ := s.fee_bounds tag bytes'
  rw [Int64.toInt_sub]
  refine Shares.bmod_of_fits ?_
  unfold Fee.maxFee at high high'
  unfold Shares.Fits Shares.minValue Shares.maxValue
  omega

theorem feeRows_cost {s : FeeSchedule} {row : CommandLine.FeeRow} (listed : row ∈ CommandLine.feeRows s) :
    0 ≤ row.perKilobyte.toInt ∧
      row.perKilobyte.toInt = (s.fee row.kind.tag 1024).toInt - (s.fee row.kind.tag 0).toInt := by
  obtain ⟨k, -, rfl⟩ := List.mem_map.mp listed
  have cost := s.toInt_fee_sub k.tag 1024 0
  have more : s.fee k.tag 0 ≤ s.fee k.tag 1024 :=
    fee_mono UInt64.le_rfl UInt64.le_rfl UInt32.le_rfl (Nat.zero_le _)
  rw [Int64.le_iff_toInt_le] at more
  refine ⟨?_, cost⟩
  dsimp only
  rw [cost]
  omega

end FeeSchedule

namespace Wide

-- What an unsigned word of 128 bits holds, and what a signed one holds.
def unsigned? (n : Nat) : Option Nat := if n < 2 ^ 128 then some n else none
def signed? (n : Int) : Option Int := if -2 ^ 127 ≤ n ∧ n < 2 ^ 127 then some n else none

def toShares (n : Int) : Shares := (Shares.ofInt? n).getD (Int64.ofInt Shares.maxValue)

theorem toShares_natCast (n : Nat) : toShares n = Fee.clamp n := by
  refine Int64.toInt_inj.mp ?_
  rw [Fee.toInt_clamp, toShares, Shares.ofInt?]
  by_cases small : n ≤ Fee.maxFee
  · have fits : Shares.Fits n := by
      unfold Shares.Fits Shares.minValue Shares.maxValue
      unfold Fee.maxFee at small
      omega
    rw [if_pos ⟨fits.1, fits.2⟩, Option.getD_some, Int64.toInt_ofInt, Nat.min_eq_right small]
    exact Shares.bmod_of_fits fits
  · have large : ¬(Shares.minValue ≤ (n : Int) ∧ (n : Int) ≤ Shares.maxValue) := by
      unfold Shares.maxValue
      unfold Fee.maxFee at small
      omega
    rw [if_neg large, Option.getD_none, Nat.min_eq_left (Nat.le_of_not_le small)]
    rfl

end Wide

-- The fee with every sum and product in a word of 128 bits; nothing if one of them is too large.
def FeeParameters.fee? (p : FeeParameters) (bytes : UInt64) : Option Shares := do
  let product ← Wide.unsigned? (bytes.toNat * p.perKilobyte.toNat)
  let total ← Wide.unsigned? (p.flat.toNat + product / 1024)
  return Wide.toShares total

def FeeSchedule.fee? (s : FeeSchedule) (tag : UInt8) (bytes : UInt64) : Option Shares := do
  let base ← (s.parametersFor tag).fee? bytes
  if s.scale = unitScale then return base
  let product ← Wide.signed? (base.toInt * s.scale.toNat)
  return Wide.toShares (product.tdiv unitScale.toNat)

theorem FeeParameters.fee?_eq_some (p : FeeParameters) (bytes : UInt64) :
    p.fee? bytes = some (p.fee bytes.toNat) := by
  have product : bytes.toNat * p.perKilobyte.toNat < 2 ^ 64 * 2 ^ 64 :=
    Nat.mul_lt_mul'' bytes.toNat_lt p.perKilobyte.toNat_lt
  rw [← Nat.pow_add] at product
  have flat := p.flat.toNat_lt
  have total : p.flat.toNat + bytes.toNat * p.perKilobyte.toNat / 1024 < 2 ^ 128 := by omega
  simp only [fee?, Wide.unsigned?, if_pos product, if_pos total, Option.bind_eq_bind, Option.bind_some,
    Wide.toShares_natCast]
  rfl

theorem FeeSchedule.fee?_eq_some (s : FeeSchedule) (tag : UInt8) (bytes : UInt64) :
    s.fee? tag bytes = some (s.fee tag bytes.toNat) := by
  have base := (s.parametersFor tag).toInt_fee bytes.toNat
  have scale := s.scale.toNat_lt
  generalize flat : min Fee.maxFee _ = least at base
  have bounded : least < 2 ^ 63 := by
    rw [← flat]
    exact Nat.lt_of_le_of_lt (Nat.min_le_left ..) (by decide)
  have product : least * s.scale.toNat < 2 ^ 63 * 2 ^ 32 := Nat.mul_lt_mul'' bounded scale
  have fits : -2 ^ 127 ≤ ((least : Int) * s.scale.toNat) ∧ ((least : Int) * s.scale.toNat) < 2 ^ 127 := by
    rw [← Int.natCast_mul]
    omega
  rw [fee?, FeeParameters.fee?_eq_some, fee]
  simp only [Option.bind_eq_bind, Option.bind_some]
  split
  · rfl
  · simp only [base, Wide.signed?, if_pos fits, Option.bind_some, Int.toNat_natCast]
    rw [← Int.natCast_mul, ← Int.ofNat_tdiv, Wide.toShares_natCast]
    rfl

namespace FeeSchedule

theorem fees_are_exact_and_monotone :
    (∀ (s : FeeSchedule) (tag : UInt8) (bytes : Nat), (s.fee tag bytes).toInt =
      Fee.exact (s.parametersFor tag).flat.toNat (s.parametersFor tag).perKilobyte.toNat s.scale.toNat bytes) ∧
    (∀ (s : FeeSchedule) (tag : UInt8) (bytes : UInt64), s.fee? tag bytes = some (s.fee tag bytes.toNat)) ∧
    (∀ (s : FeeSchedule) (tag : UInt8) (bytes : Nat), s.scale = unitScale → (s.parametersFor tag).fee bytes =
      Fee.clamp (((s.parametersFor tag).fee bytes).toInt.toNat * s.scale.toNat / unitScale.toNat)) ∧
    (∀ (s : FeeSchedule) (tag : UInt8) (bytes : Nat),
      0 ≤ (s.fee tag bytes).toInt ∧ (s.fee tag bytes).toInt ≤ 2 ^ 63 - 1) ∧
    (∀ (s s' : FeeSchedule) (tag tag' : UInt8) (bytes bytes' : Nat),
      (s.parametersFor tag).flat ≤ (s'.parametersFor tag').flat →
      (s.parametersFor tag).perKilobyte ≤ (s'.parametersFor tag').perKilobyte →
      s.scale ≤ s'.scale → bytes ≤ bytes' → s.fee tag bytes ≤ s'.fee tag' bytes') ∧
    ∀ (s : FeeSchedule), ∀ row ∈ CommandLine.feeRows s, 0 ≤ row.perKilobyte.toInt ∧
      row.perKilobyte.toInt = (s.fee row.kind.tag 1024).toInt - (s.fee row.kind.tag 0).toInt := by
  refine ⟨toInt_fee, fee?_eq_some, ?_, fee_bounds, fun _ _ _ _ _ _ => fee_mono, fun _ _ => feeRows_cost⟩
  intro s tag bytes unscaled
  rw [← fee_eq_clamp, fee]
  exact (if_pos unscaled).symm

-- Dear beyond what an amount holds, and tripled.
def dear : FeeSchedule := ⟨.ofList [(0, ⟨0xFFFFFFFFFFFFFFFF, 0xFFFFFFFFFFFFFFFF⟩)], 30000⟩

theorem fees_are_exact_and_monotone_dear :
    (dear.fee 0 5).toInt = 2 ^ 63 - 1 ∧
    dear.fee? 0 0xFFFFFFFFFFFFFFFF = some (dear.fee 0 0xFFFFFFFFFFFFFFFF) ∧
    (standard.parametersFor 0).fee 100 =
      Fee.clamp (((standard.parametersFor 0).fee 100).toInt.toNat * standard.scale.toNat / unitScale.toNat) ∧
    standard.fee 0 100 ≤ dear.fee 0 100 ∧
    ∃ row ∈ CommandLine.feeRows dear, row.kind = .transfer ∧ row.perKilobyte.toInt = 0 := by
  obtain ⟨exact, words, unscaled, -, mono, rows⟩ := fees_are_exact_and_monotone
  have bounded : Fee.exact (dear.parametersFor 0).flat.toNat (dear.parametersFor 0).perKilobyte.toNat
      dear.scale.toNat 5 = 2 ^ 63 - 1 := by decide +kernel
  have listed : (⟨.transfer, dear.fee 0 0, dear.fee 0 1024 - dear.fee 0 0⟩ : CommandLine.FeeRow) ∈
      CommandLine.feeRows dear := List.mem_cons_self ..
  refine ⟨?_, words dear 0 _, unscaled standard 0 100 rfl, ?_, _, listed, rfl, ?_⟩
  · rw [exact, bounded]
    rfl
  · exact mono standard dear 0 0 100 100 (by decide +kernel) (by decide +kernel) (by decide +kernel)
      (Nat.le_refl _)
  · rw [(rows dear _ listed).2]
    decide +kernel

end FeeSchedule

end RoomLedger
