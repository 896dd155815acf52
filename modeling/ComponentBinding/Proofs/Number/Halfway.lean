import ComponentBinding.Proofs.Number.Rank
import Mathlib.Algebra.Order.Field.Basic
import Mathlib.Algebra.Order.Ring.Rat
import Mathlib.Tactic.FieldSimp

/-! Rounding as a choice between neighbours. A quotient lies between the magnitudes of two ranks that follow each
other, and rounds to the lower one if it is below the middle between them, or in the middle and the lower rank is
even. -/
namespace ComponentBinding
namespace FloatFormat

variable {f : FloatFormat}

/-- A significand of at most one digit more than the format stores, shifted, is the magnitude of the rank that it takes
in its binade; with one digit less only in the least binade. -/
theorem units_shifted {shift significand : Nat} (hlow : shift = 0 ∨ 2 ^ f.significandBits ≤ significand)
    (hhigh : significand ≤ 2 ^ (f.significandBits + 1)) :
    f.units (shift * 2 ^ f.significandBits + significand) = significand * 2 ^ shift := by
  rw [pow_succ] at hhigh
  rcases Nat.lt_or_ge significand (2 ^ f.significandBits) with hlt | hle
  · obtain rfl := hlow.resolve_right (Nat.not_le.mpr hlt)
    rw [Nat.zero_mul, Nat.zero_add, units_of_lt hlt, pow_zero, Nat.mul_one]
  · obtain ⟨fraction, rfl⟩ := Nat.exists_eq_add_of_le hle
    rcases Nat.lt_or_eq_of_le (show fraction ≤ 2 ^ f.significandBits by omega) with hlt | rfl
    · rw [← units_binade shift hlt]
      congr 1
      ring
    · have hnext := units_binade (f := f) (shift + 1) (Nat.two_pow_pos _)
      rw [Nat.add_zero, Nat.add_zero] at hnext
      rw [show shift * 2 ^ f.significandBits + (2 ^ f.significandBits + 2 ^ f.significandBits) =
        (shift + 1 + 1) * 2 ^ f.significandBits by ring, hnext]
      ring

theorem roundHalfEven_le_div_iff (num den : Nat) :
    roundHalfEven num den ≤ num / den ↔
      2 * num < (2 * (num / den) + 1) * den ∨ 2 * num = (2 * (num / den) + 1) * den ∧ num / den % 2 = 0 := by
  have hnum := Nat.div_add_mod num den
  have hmiddle : (2 * (num / den) + 1) * den = 2 * (den * (num / den)) + den := by ring
  rw [hmiddle]
  unfold roundHalfEven
  dsimp only
  generalize den * (num / den) = whole at hnum ⊢
  split
  · omega
  · split <;> omega

/-- A quotient lies from the magnitude of one rank to below that of the next. It rounds to one of the two, to the
lower one if it is below the middle, or in the middle and that rank is even. -/
theorem exists_floor_rank (hbits : 0 < f.significandBits) (num : Nat) {den : Nat} (hden : 0 < den) :
    ∃ floor rounded, f.units floor * den ≤ num ∧ num < f.units (floor + 1) * den ∧
      f.nearestRank num den = min rounded f.infinityRank ∧ floor ≤ rounded ∧ rounded ≤ floor + 1 ∧
      (rounded ≤ floor ↔ 2 * num < (f.units floor + f.units (floor + 1)) * den ∨
        2 * num = (f.units floor + f.units (floor + 1)) * den ∧ floor % 2 = 0) := by
  generalize hshift : (num / den).log2 - f.significandBits = shift
  have hlow : shift = 0 ∨ 2 ^ f.significandBits ≤ num / (den * 2 ^ shift) :=
    (Nat.eq_zero_or_pos shift).imp id (le_div_shifted hshift)
  have hhigh : num / (den * 2 ^ shift) + 1 ≤ 2 ^ (f.significandBits + 1) := div_shifted_lt hshift
  have hunits := units_shifted hlow (Nat.le_of_succ_le hhigh)
  have hunits' := units_shifted (hlow.imp id Nat.le_succ_of_le) hhigh
  have hround := roundHalfEven_le_div_iff num (den * 2 ^ shift)
  have hle := le_roundHalfEven num (den * 2 ^ shift)
  have hle' := roundHalfEven_le num (den * 2 ^ shift)
  have hparity : (shift * 2 ^ f.significandBits + num / (den * 2 ^ shift)) % 2 = num / (den * 2 ^ shift) % 2 := by
    rw [← Nat.sub_add_cancel hbits, pow_succ, ← Nat.mul_assoc, Nat.mul_add_mod_self_right]
  refine ⟨shift * 2 ^ f.significandBits + num / (den * 2 ^ shift),
    shift * 2 ^ f.significandBits + roundHalfEven num (den * 2 ^ shift), ?_, ?_, ?_, Nat.add_le_add_left hle _,
    Nat.add_le_add_left hle' _, ?_⟩
  · rw [hunits, Nat.mul_assoc, Nat.mul_comm (2 ^ shift)]
    exact Nat.div_mul_le_self ..
  · rw [Nat.add_assoc, hunits', Nat.mul_assoc, Nat.mul_comm (2 ^ shift), Nat.mul_comm]
    exact Nat.lt_mul_div_succ num (Nat.mul_pos hden (Nat.two_pow_pos _))
  · simp only [nearestRank, Nat.pow_eq, hshift]
  · have hmiddle : (2 * (num / (den * 2 ^ shift)) + 1) * (den * 2 ^ shift) =
        (num / (den * 2 ^ shift) * 2 ^ shift + (num / (den * 2 ^ shift) + 1) * 2 ^ shift) * den := by ring
    rw [Nat.add_le_add_iff_left, hround, hparity, Nat.add_assoc, hunits, hunits', hmiddle]

/-- Rounding ends at a rank or below it exactly up to the middle between the rank and the next; the middle itself
counts for an even rank. -/
theorem nearestRank_le_iff (hbits : 0 < f.significandBits) {num den rank : Nat} (hden : 0 < den)
    (hrank : rank < f.infinityRank) :
    f.nearestRank num den ≤ rank ↔ 2 * num < (f.units rank + f.units (rank + 1)) * den ∨
      2 * num = (f.units rank + f.units (rank + 1)) * den ∧ rank % 2 = 0 := by
  obtain ⟨floor, rounded, hfloor, hceil, hnearest, hle, hle', hiff⟩ := exists_floor_rank (f := f) hbits num hden
  have hbelow : f.nearestRank num den ≤ rank ↔ rounded ≤ rank := by
    rw [hnearest]
    omega
  rw [hbelow]
  rcases Nat.lt_trichotomy floor rank with hlt | rfl | hlt
  · -- the quotient is below the magnitude of the rank
    have hunits : f.units (floor + 1) * den ≤ f.units rank * den :=
      Nat.mul_le_mul_right _ (f.units_strictMono.monotone hlt)
    have hnext : f.units rank * den < f.units (rank + 1) * den :=
      Nat.mul_lt_mul_of_pos_right (f.units_strictMono (Nat.lt_succ_self rank)) hden
    rw [Nat.add_mul]
    omega
  · exact hiff
  · -- the quotient reaches the magnitude of the next rank
    have hunits : f.units (rank + 1) * den ≤ f.units floor * den :=
      Nat.mul_le_mul_right _ (f.units_strictMono.monotone hlt)
    have hnext : f.units rank * den < f.units (rank + 1) * den :=
      Nat.mul_lt_mul_of_pos_right (f.units_strictMono (Nat.lt_succ_self rank)) hden
    rw [Nat.add_mul]
    omega

/-- The middle between the magnitudes of a rank and the next. -/
def middle (f : FloatFormat) (rank : Nat) : ℚ :=
  ((f.units rank + f.units (rank + 1) : Nat) : ℚ) / (2 ^ (f.scale + 1) : Nat)

end FloatFormat

namespace Binary

variable {f g : FloatFormat}

/-- Below the middle after an odd rank, and only there, rounding ends at that rank or below it. -/
theorem rank_ofRatio_le_iff (hbits : 0 < f.significandBits) (negative : Bool) {num den rank : Nat} (hden : 0 < den)
    (hrank : rank < f.infinityRank) (hodd : rank % 2 = 1) :
    (ofRatio negative num den : Binary f).rank ≤ rank ↔ (num : ℚ) / den < f.middle rank := by
  have hrounded : (ofRatio negative num den : Binary f).rank = f.nearestRank (num * 2 ^ f.scale) den := rfl
  have hdouble : 2 * (num * 2 ^ f.scale) = num * 2 ^ (f.scale + 1) := by ring
  have hcast : (0 : ℚ) < den := Nat.cast_pos.mpr hden
  have hscale : (0 : ℚ) < (2 ^ (f.scale + 1) : Nat) := Nat.cast_pos.mpr (Nat.two_pow_pos _)
  rw [hrounded, FloatFormat.nearestRank_le_iff hbits hden hrank, hdouble, FloatFormat.middle,
    div_lt_div_iff₀ hcast hscale, ← Nat.cast_mul, ← Nat.cast_mul, Nat.cast_lt]
  simp [hodd]

/-- So does a finite datum of another format. -/
theorem rank_convert_le_iff (hbits : 0 < g.significandBits) {x : Binary f} (h : x.isFinite = true) {rank : Nat}
    (hrank : rank < g.infinityRank) (hodd : rank % 2 = 1) :
    (x.convert : Binary g).rank ≤ rank ↔ (f.units x.rank : ℚ) < g.middle rank * (2 ^ f.scale : Nat) := by
  have hscale : 0 < 2 ^ f.scale := Nat.two_pow_pos _
  rw [convert_of_isFinite h, Nat.pow_eq, rank_ofRatio_le_iff hbits x.negative hscale hrank hodd,
    div_lt_iff₀ (Nat.cast_pos.mpr hscale)]

end Binary
end ComponentBinding
