import Mathlib
import RoomLedger.Value.Funds

namespace RoomLedger.Shares

variable {a b total : Shares}

-- A computation on amounts is exact if the integers that it stands for stay in this range.
def Fits (value : Int) : Prop := minValue ≤ value ∧ value ≤ maxValue

theorem fits_toInt (a : Shares) : Fits a.toInt := by
  have low := a.le_toInt
  have high := a.toInt_lt
  unfold Fits minValue maxValue
  omega

theorem bmod_of_fits {value : Int} (fits : Fits value) : value.bmod (2 ^ 64) = value := by
  unfold Fits minValue maxValue at fits
  exact Int.bmod_eq_of_le (by omega) (by omega)

theorem exists_toInt_eq {value : Int} (fits : Fits value) : ∃ a : Shares, a.toInt = value :=
  ⟨Int64.ofInt value, by rw [Int64.toInt_ofInt]; exact bmod_of_fits fits⟩

theorem toInt_add_of_fits (fits : Fits (a.toInt + b.toInt)) : (a + b).toInt = a.toInt + b.toInt := by
  rw [Int64.toInt_add, bmod_of_fits fits]

theorem toInt_neg_of_nonneg (nonneg : 0 ≤ a.toInt) : (-a).toInt = -a.toInt := by
  have high := a.toInt_lt
  rw [Int64.toInt_neg, bmod_of_fits]
  unfold Fits minValue maxValue
  omega

theorem addExact?_eq_some_iff :
    a.addExact? b = some total ↔ Fits (a.toInt + b.toInt) ∧ total.toInt = a.toInt + b.toInt := by
  unfold addExact? ofInt?
  constructor
  · intro added
    split at added
    · rename_i fits
      cases added
      refine ⟨fits, ?_⟩
      rw [Int64.toInt_ofInt]
      exact bmod_of_fits fits
    · cases added
  · intro given
    obtain ⟨⟨low, high⟩, same⟩ := given
    rw [if_pos ⟨low, high⟩, ← same, Int64.ofInt_toInt]

theorem addExact?_eq_add (added : a.addExact? b = some total) : total = a + b := by
  obtain ⟨fits, same⟩ := addExact?_eq_some_iff.mp added
  exact Int64.toInt_inj.mp (by rw [same, toInt_add_of_fits fits])

theorem toInt_addClamped (a b : Shares) :
    (a.addClamped b).toInt = max minValue (min maxValue (a.toInt + b.toInt)) := by
  unfold addClamped
  rw [Int64.toInt_ofInt]
  apply bmod_of_fits
  unfold Fits minValue maxValue
  omega

theorem pos_iff : 0 < a ↔ 0 < a.toInt := by rw [Int64.lt_iff_toInt_lt, Int64.toInt_zero]

theorem nonneg_iff : 0 ≤ a ↔ 0 ≤ a.toInt := by rw [Int64.le_iff_toInt_le, Int64.toInt_zero]

theorem toInt_maxSupply : maxSupply.toInt = 1000000000000000 := by rfl

end RoomLedger.Shares
