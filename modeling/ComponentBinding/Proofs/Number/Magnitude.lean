import ComponentBinding.Proofs.Number.Halfway
import ComponentBinding.Proofs.Number.Numeral

/-! The exact number that a decimal numeral denotes, and where it overflows. A format has no finite datum for it
exactly from the middle on between the largest finite magnitude and the next power of two. A number that goes through
the larger format on its way to the smaller overflows a little earlier, where the larger format rounds it up to that
middle of the smaller one. -/
namespace ComponentBinding

namespace Decimal

/-- The exact number, without its sign. -/
def magnitude (d : Decimal) : ℚ := digitsValue d.digits * (10 : ℚ) ^ d.exponent

theorem magnitude_powerOfTen (negative : Bool) (n : Nat) : magnitude ⟨negative, ['1'], n⟩ = 10 ^ n := by
  have hvalue : digitsValue ['1'] = 1 := rfl
  rw [magnitude, hvalue, Nat.cast_one, one_mul]
  exact zpow_natCast ..

theorem magnitude_eq_div (d : Decimal) :
    d.magnitude = ((digitsValue d.digits * 10 ^ d.exponent.toNat : Nat) : ℚ) / (10 ^ (-d.exponent).toNat : Nat) := by
  have hexponent : d.exponent = (d.exponent.toNat : Int) - ((-d.exponent).toNat : Int) := by omega
  rw [magnitude]
  conv_lhs => rw [hexponent, zpow_sub₀ (by norm_num), zpow_natCast, zpow_natCast]
  push_cast
  rw [mul_div_assoc]

/-- The datum nearest to a numeral is at most that of an odd rank exactly below the middle after it. -/
theorem rank_toBinary_le_iff {f : FloatFormat} (hbits : 0 < f.significandBits) {d : Decimal}
    (hdigits : ∀ c ∈ d.digits, c.isDigit = true) {rank : Nat} (hrank : rank < f.infinityRank) (hodd : rank % 2 = 1) :
    (d.toBinary : Binary f).rank ≤ rank ↔ d.magnitude < f.middle rank := by
  rw [toBinary_eq_ofRatio hdigits, magnitude_eq_div,
    Binary.rank_ofRatio_le_iff hbits d.negative (Nat.pow_pos (by decide)) hrank hodd]

/-- All that a numeral counts as digits are digits. -/
theorem isDigit_of_read? {text : List Char} {d : Decimal} (h : read? text = some d) :
    ∀ c ∈ d.digits, c.isDigit = true := by
  have hparts (negative : Bool) {whole fraction tail : List Char} (hwhole : ∀ c ∈ whole, c.isDigit = true)
      (hfraction : ∀ c ∈ fraction, c.isDigit = true)
      (hparts : (if whole.isEmpty && fraction.isEmpty then none
        else (readExponent? tail).map fun exponent =>
          (⟨negative, whole ++ fraction, exponent - fraction.length⟩ : Decimal)) = some d) :
      ∀ c ∈ d.digits, c.isDigit = true := by
    split at hparts
    · cases hparts
    · obtain ⟨_, _, rfl⟩ := Option.map_eq_some_iff.mp hparts
      exact fun c hc => (List.mem_append.mp hc).elim (hwhole c) (hfraction c)
  unfold read? at h
  dsimp only at h
  split at h
  · exact hparts _ (fun _ => List.mem_takeWhile_imp) (fun _ => List.mem_takeWhile_imp) h
  · exact hparts _ (fun _ => List.mem_takeWhile_imp) (List.forall_mem_nil _) h

end Decimal

namespace FloatFormat

variable {f : FloatFormat}

theorem middle_eq {rank n : Nat} (h : f.units rank + f.units (rank + 1) = n * 2 ^ (f.scale + 1)) : f.middle rank = n := by
  rw [middle, h, Nat.cast_mul, mul_div_cancel_right₀]
  exact Nat.cast_ne_zero.mpr (Nat.two_pow_pos _).ne'

/-- The least double whose nearest datum of 32 bits is infinite. -/
def narrowingRank : Nat := 1149 * 2 ^ 52 + (2 ^ 25 - 1) * 2 ^ 28

theorem units_narrowingRank : binary64.units narrowingRank = (2 ^ 128 - 2 ^ 103) * 2 ^ binary64.scale := by
  decide +kernel

theorem middle_binary32 : binary32.middle (binary32.infinityRank - 1) = 2 ^ 128 - 2 ^ 103 := by
  have hunits : binary32.units (binary32.infinityRank - 1) + binary32.units (binary32.infinityRank - 1 + 1) =
      (2 ^ 128 - 2 ^ 103) * 2 ^ (binary32.scale + 1) := by decide +kernel
  rw [middle_eq hunits]
  norm_num

theorem middle_binary64 : binary64.middle (binary64.infinityRank - 1) = 2 ^ 1024 - 2 ^ 970 := by
  have hunits : binary64.units (binary64.infinityRank - 1) + binary64.units (binary64.infinityRank - 1 + 1) =
      (2 ^ 54 - 1) * 2 ^ 970 * 2 ^ (binary64.scale + 1) := by decide +kernel
  have hpow : (2 : ℚ) ^ 1024 = 2 ^ 54 * 2 ^ 970 := pow_add 2 54 970
  rw [middle_eq hunits, hpow, ← sub_one_mul, Nat.cast_mul, Nat.cast_pow]
  norm_num

theorem middle_narrowingRank : binary64.middle (narrowingRank - 1) = 2 ^ 128 - 2 ^ 103 - 2 ^ 74 := by
  have hunits : binary64.units (narrowingRank - 1) + binary64.units (narrowingRank - 1 + 1) =
      (2 ^ 128 - 2 ^ 103 - 2 ^ 74) * 2 ^ (binary64.scale + 1) := by decide +kernel
  rw [middle_eq hunits]
  norm_num

end FloatFormat

namespace Binary

open FloatFormat

theorem isFinite_iff_le {f : FloatFormat} (h : 0 < f.infinityRank) (x : Binary f) :
    x.isFinite = true ↔ x.rank ≤ f.infinityRank - 1 := by
  rw [isFinite, decide_eq_true_eq]
  omega

/-- A double becomes infinite in 32 bits from the middle on between the largest finite datum and the next power of
two, which is a double itself. -/
theorem isFinite_convert_iff {x : Binary64} (h : x.isFinite = true) :
    (x.convert : Binary32).isFinite = true ↔ x.rank ≤ narrowingRank - 1 := by
  have hmiddle : (2 ^ 128 - 2 ^ 103 : ℚ) = (2 ^ 128 - 2 ^ 103 : Nat) := by norm_num
  have hlt : binary64.units x.rank < binary64.units narrowingRank ↔ x.rank < narrowingRank :=
    binary64.units_strictMono.lt_iff_lt
  rw [isFinite_iff_le (by decide), rank_convert_le_iff (by decide) h (by decide) (by decide), middle_binary32, hmiddle,
    ← Nat.cast_mul, Nat.cast_lt, ← units_narrowingRank, hlt]
  exact Nat.lt_iff_le_pred (by decide)

end Binary

namespace Decimal

variable {d : Decimal} (hdigits : ∀ c ∈ d.digits, c.isDigit = true)
include hdigits

theorem isFinite_toBinary64_iff : (d.toBinary : Binary64).isFinite = true ↔ d.magnitude < 2 ^ 1024 - 2 ^ 970 := by
  rw [Binary.isFinite_iff_le (by decide), rank_toBinary_le_iff (by decide) hdigits (by decide) (by decide),
    FloatFormat.middle_binary64]

theorem isFinite_narrowed_iff (h : (d.toBinary : Binary64).isFinite = true) :
    ((d.toBinary : Binary64).convert : Binary32).isFinite = true ↔ d.magnitude < 2 ^ 128 - 2 ^ 103 - 2 ^ 74 := by
  rw [Binary.isFinite_convert_iff h, rank_toBinary_le_iff (by decide) hdigits (by decide +kernel) (by decide +kernel),
    FloatFormat.middle_narrowingRank]

end Decimal
end ComponentBinding
