import ComponentBinding.Number.Binary
import Mathlib.Algebra.Order.Ring.Nat
import Mathlib.Tactic.Positivity
import Mathlib.Tactic.Ring

/-! Rounding to the ranks of a format. A magnitude that the format holds rounds to its own rank, and one
below the overflow threshold to a finite rank. So a format with more digits and a wider range holds every
datum of a smaller one. -/
namespace ComponentBinding
namespace FloatFormat

variable {f g : FloatFormat}

theorem roundHalfEven_mul (quotient : Nat) {den : Nat} (h : 0 < den) :
    roundHalfEven (quotient * den) den = quotient := by
  simp [roundHalfEven, Nat.mul_div_cancel _ h, h]

theorem roundHalfEven_le (num den : Nat) : roundHalfEven num den ≤ num / den + 1 := by
  unfold roundHalfEven
  dsimp only
  split
  · omega
  · split <;> omega

theorem le_roundHalfEven (num den : Nat) : num / den ≤ roundHalfEven num den := by
  unfold roundHalfEven
  dsimp only
  split
  · exact Nat.le_refl _
  · split <;> omega

theorem roundHalfEven_mono {num num' : Nat} (h : num ≤ num') (den : Nat) :
    roundHalfEven num den ≤ roundHalfEven num' den := by
  rcases Nat.lt_or_eq_of_le (Nat.div_le_div_right (c := den) h) with hlt | heq
  · calc roundHalfEven num den
        ≤ num / den + 1 := roundHalfEven_le num den
      _ ≤ num' / den := hlt
      _ ≤ roundHalfEven num' den := le_roundHalfEven num' den
  · -- with the same quotient the remainders are in order
    have hnum := Nat.div_add_mod num den
    have hnum' := Nat.div_add_mod num' den
    rw [← heq] at hnum'
    have hmod : num % den ≤ num' % den := by omega
    unfold roundHalfEven
    dsimp only
    rw [heq]
    split <;> split <;> (try split) <;> (try split) <;> omega

theorem units_of_lt {rank : Nat} (h : rank < 2 ^ f.significandBits) : f.units rank = rank := by
  have hbinade : rank / 2 ^ f.significandBits = 0 := Nat.div_eq_of_lt h
  simp [units, hbinade]

theorem units_binade (binade : Nat) {fraction : Nat} (h : fraction < 2 ^ f.significandBits) :
    f.units ((binade + 1) * 2 ^ f.significandBits + fraction) =
      (2 ^ f.significandBits + fraction) * 2 ^ binade := by
  have hbinade : ((binade + 1) * 2 ^ f.significandBits + fraction) / 2 ^ f.significandBits = binade + 1 := by
    rw [Nat.mul_comm, Nat.mul_add_div (Nat.two_pow_pos _), Nat.div_eq_of_lt h, Nat.add_zero]
  have hfraction : ((binade + 1) * 2 ^ f.significandBits + fraction) % 2 ^ f.significandBits = fraction := by
    rw [Nat.mul_comm, Nat.mul_add_mod, Nat.mod_eq_of_lt h]
  simp [units, hbinade, hfraction]

/-- A rank lies among the least magnitudes, which are all whole numbers of units, or at a place in a binade. -/
theorem rank_cases (f : FloatFormat) (rank : Nat) :
    rank < 2 ^ f.significandBits ∨
      ∃ binade fraction, fraction < 2 ^ f.significandBits ∧ rank = (binade + 1) * 2 ^ f.significandBits + fraction := by
  cases hbinade : rank / 2 ^ f.significandBits with
  | zero => exact .inl (Nat.lt_of_div_eq_zero (Nat.two_pow_pos _) hbinade)
  | succ binade =>
    refine .inr ⟨binade, rank % 2 ^ f.significandBits, Nat.mod_lt _ (Nat.two_pow_pos _), ?_⟩
    rw [← hbinade, Nat.mul_comm]
    exact (Nat.div_add_mod ..).symm

/-- A magnitude of the format rounds to its rank. -/
theorem nearestRank_units (rank : Nat) {den : Nat} (h : 0 < den) :
    f.nearestRank (f.units rank * den) den = min rank f.infinityRank := by
  unfold nearestRank
  rw [Nat.mul_div_cancel _ h]
  rcases f.rank_cases rank with hlt | ⟨binade, fraction, hlt, rfl⟩
  · have hlog : rank.log2 ≤ f.significandBits := by
      rcases Nat.eq_zero_or_pos rank with rfl | hpos
      · simp
      · exact Nat.le_of_lt ((Nat.log2_lt hpos.ne').mpr hlt)
    simp [units_of_lt hlt, Nat.sub_eq_zero_of_le hlog, roundHalfEven_mul _ h]
  · have hlog : ((2 ^ f.significandBits + fraction) * 2 ^ binade).log2 = f.significandBits + binade := by
      rw [Nat.log2_eq_iff (by positivity)]
      constructor
      · rw [pow_add]
        exact Nat.mul_le_mul_right _ (Nat.le_add_right ..)
      · rw [Nat.add_right_comm, pow_add, pow_succ]
        exact Nat.mul_lt_mul_of_pos_right (by omega) (Nat.two_pow_pos _)
    simp only [units_binade binade hlt, hlog, Nat.add_sub_cancel_left, Nat.pow_eq]
    rw [Nat.mul_assoc, Nat.mul_comm (2 ^ binade) den, roundHalfEven_mul _ (by positivity)]
    congr 1
    ring

/-- The format holds every multiple of a power of two whose factor has no more digits than its
significands. -/
theorem exists_units_eq (shift : Nat) {factor : Nat} (h : factor < 2 ^ (f.significandBits + 1)) :
    ∃ rank, f.units rank = factor * 2 ^ shift := by
  induction shift generalizing factor with
  | zero =>
    rcases Nat.lt_or_ge factor (2 ^ f.significandBits) with hlt | hle
    · exact ⟨factor, by rw [units_of_lt hlt, pow_zero, Nat.mul_one]⟩
    · refine ⟨(0 + 1) * 2 ^ f.significandBits + (factor - 2 ^ f.significandBits), ?_⟩
      rw [pow_succ] at h
      rw [units_binade 0 (by omega), Nat.add_sub_cancel' hle]
  | succ shift ih =>
    rcases Nat.lt_or_ge factor (2 ^ f.significandBits) with hlt | hle
    · have hdouble : 2 * factor < 2 ^ (f.significandBits + 1) := by
        rw [pow_succ]
        omega
      obtain ⟨rank, hrank⟩ := ih hdouble
      exact ⟨rank, by rw [hrank]; ring⟩
    · refine ⟨(shift + 1 + 1) * 2 ^ f.significandBits + (factor - 2 ^ f.significandBits), ?_⟩
      rw [pow_succ] at h
      rw [units_binade (shift + 1) (by omega), Nat.add_sub_cancel' hle]

/-- The significand of a quotient takes at most one digit more than the format stores. -/
theorem div_shifted_lt {num den shift : Nat} (h : (num / den).log2 - f.significandBits = shift) :
    num / (den * 2 ^ shift) < 2 ^ (f.significandBits + 1) := by
  have hquotient : num / den < 2 ^ shift * 2 ^ (f.significandBits + 1) := by
    rw [← pow_add]
    exact Nat.lt_of_lt_of_le Nat.lt_log2_self (Nat.pow_le_pow_right Nat.two_pos (by omega))
  rw [← Nat.div_div_eq_div_mul]
  exact Nat.div_lt_of_lt_mul hquotient

/-- Beyond the least binade it takes no fewer. -/
theorem le_div_shifted {num den shift : Nat} (h : (num / den).log2 - f.significandBits = shift) (hpos : 0 < shift) :
    2 ^ f.significandBits ≤ num / (den * 2 ^ shift) := by
  have hne : num / den ≠ 0 := by
    intro hzero
    rw [hzero, Nat.log2_zero] at h
    omega
  have hquotient : 2 ^ shift * 2 ^ f.significandBits ≤ num / den := by
    rw [← pow_add]
    exact (Nat.pow_le_pow_right Nat.two_pos (by omega)).trans (Nat.log2_self_le hne)
  rw [← Nat.div_div_eq_div_mul, Nat.le_div_iff_mul_le (Nat.two_pow_pos _), Nat.mul_comm]
  exact hquotient

theorem roundHalfEven_shifted_le (num den : Nat) :
    roundHalfEven num (den * 2 ^ ((num / den).log2 - f.significandBits)) ≤ 2 ^ (f.significandBits + 1) :=
  (roundHalfEven_le ..).trans (div_shifted_lt rfl)

/-- Rounding keeps the order of quotients. -/
theorem nearestRank_mono (f : FloatFormat) {num num' : Nat} (h : num ≤ num') (den : Nat) :
    f.nearestRank num den ≤ f.nearestRank num' den := by
  unfold nearestRank
  simp only [Nat.pow_eq]
  have hdiv : num / den ≤ num' / den := Nat.div_le_div_right h
  have hlog : (num / den).log2 ≤ (num' / den).log2 := by
    rcases Nat.eq_zero_or_pos (num / den) with hzero | hpos
    · rw [hzero, Nat.log2_zero]
      exact Nat.zero_le _
    · exact (Nat.le_log2 (by omega)).mpr ((Nat.log2_self_le hpos.ne').trans hdiv)
  have hround := roundHalfEven_shifted_le (f := f) num den
  apply min_le_min_right
  generalize hshift : (num / den).log2 - f.significandBits = shift at hround ⊢
  generalize hshift' : (num' / den).log2 - f.significandBits = shift'
  rcases Nat.lt_or_eq_of_le (show shift ≤ shift' by omega) with hlt | rfl
  · have hround' := (le_div_shifted hshift' (Nat.zero_lt_of_lt hlt)).trans (le_roundHalfEven ..)
    calc shift * 2 ^ f.significandBits + roundHalfEven num (den * 2 ^ shift)
        ≤ shift * 2 ^ f.significandBits + 2 ^ (f.significandBits + 1) := Nat.add_le_add_left hround _
      _ = (shift + 1) * 2 ^ f.significandBits + 2 ^ f.significandBits := by ring
      _ ≤ shift' * 2 ^ f.significandBits + roundHalfEven num' (den * 2 ^ shift') :=
          Nat.add_le_add (Nat.mul_le_mul_right _ hlt) hround'
  · exact Nat.add_le_add_left (roundHalfEven_mono h _) _

/-- A higher rank is a larger magnitude. -/
theorem units_strictMono (f : FloatFormat) : StrictMono f.units := by
  refine strictMono_nat_of_lt_succ fun rank => ?_
  rcases f.rank_cases rank with hlt | ⟨binade, fraction, hlt, rfl⟩
  · rcases Nat.lt_or_eq_of_le (show rank + 1 ≤ 2 ^ f.significandBits from hlt) with hnext | hnext
    · rw [units_of_lt hlt, units_of_lt hnext]
      exact Nat.lt_succ_self _
    · have hunits := units_binade (f := f) 0 (Nat.two_pow_pos _)
      rw [Nat.zero_add, Nat.one_mul, Nat.add_zero, pow_zero, Nat.mul_one] at hunits
      rw [units_of_lt hlt, hnext, hunits]
      exact hlt
  · rw [units_binade binade hlt]
    rcases Nat.lt_or_eq_of_le (show fraction + 1 ≤ 2 ^ f.significandBits from hlt) with hnext | hnext
    · rw [Nat.add_assoc, units_binade binade hnext]
      exact Nat.mul_lt_mul_of_pos_right (by omega) (Nat.two_pow_pos _)
    · have hrank : (binade + 1) * 2 ^ f.significandBits + fraction + 1 =
          (binade + 1 + 1) * 2 ^ f.significandBits + 0 := by
        rw [Nat.add_assoc, hnext]
        ring
      rw [hrank, units_binade (binade + 1) (Nat.two_pow_pos _), pow_succ, Nat.add_zero, ← Nat.mul_assoc,
        Nat.mul_right_comm]
      exact Nat.mul_lt_mul_of_pos_right (by omega) (Nat.two_pow_pos _)

/-- Two binades below the overflow threshold rounding ends at a finite rank. -/
theorem nearestRank_lt {num den : Nat} (hexponent : 2 ≤ f.exponentBits)
    (h : num / den < 2 ^ (f.significandBits + 2 ^ f.exponentBits - 3)) :
    f.nearestRank num den < f.infinityRank := by
  have hround := roundHalfEven_shifted_le (f := f) num den
  unfold nearestRank infinityRank
  simp only [Nat.pow_eq]
  have hfour : 2 ^ 2 ≤ 2 ^ f.exponentBits := Nat.pow_le_pow_right Nat.two_pos hexponent
  have hlog : (num / den).log2 < f.significandBits + 2 ^ f.exponentBits - 3 := by
    rcases Nat.eq_zero_or_pos (num / den) with hzero | hpos
    · rw [hzero, Nat.log2_zero]
      omega
    · exact (Nat.log2_lt hpos.ne').mpr h
  generalize hshift : (num / den).log2 - f.significandBits = shift at hround ⊢
  calc min (shift * 2 ^ f.significandBits + roundHalfEven num (den * 2 ^ shift)) _
      ≤ shift * 2 ^ f.significandBits + 2 ^ (f.significandBits + 1) :=
        (Nat.min_le_left ..).trans (Nat.add_le_add_left hround _)
    _ = (shift + 2) * 2 ^ f.significandBits := by ring
    _ < (2 ^ f.exponentBits - 1) * 2 ^ f.significandBits :=
        Nat.mul_lt_mul_of_pos_right (by omega) (Nat.two_pow_pos _)

/-- From the overflow threshold on rounding ends at infinity. -/
theorem nearestRank_of_le {num den : Nat} (h : 2 ^ (f.significandBits + 2 ^ f.exponentBits - 1) ≤ num / den) :
    f.nearestRank num den = f.infinityRank := by
  unfold nearestRank infinityRank
  simp only [Nat.pow_eq]
  have hlog : f.significandBits + 2 ^ f.exponentBits - 1 ≤ (num / den).log2 :=
    (Nat.le_log2 (Nat.ne_zero_of_lt (Nat.lt_of_lt_of_le (Nat.two_pow_pos _) h))).mpr h
  apply Nat.min_eq_right
  calc (2 ^ f.exponentBits - 1) * 2 ^ f.significandBits
      ≤ ((num / den).log2 - f.significandBits) * 2 ^ f.significandBits := Nat.mul_le_mul_right _ (by omega)
    _ ≤ _ := Nat.le_add_right ..

/-- A finite magnitude is a significand times a power of two in the range of the format. -/
theorem exists_units_of_lt {rank : Nat} (h : rank < f.infinityRank) :
    ∃ significand shift, significand < 2 ^ (f.significandBits + 1) ∧ shift ≤ 2 ^ f.exponentBits ∧
      f.units rank = significand * 2 ^ shift := by
  rcases f.rank_cases rank with hlt | ⟨binade, fraction, hlt, rfl⟩
  · exact ⟨rank, 0, by rw [pow_succ]; omega, Nat.zero_le _, by rw [units_of_lt hlt, pow_zero, Nat.mul_one]⟩
  · refine ⟨2 ^ f.significandBits + fraction, binade, by rw [pow_succ]; omega, ?_, units_binade binade hlt⟩
    simp only [infinityRank, Nat.pow_eq] at h
    have hbinade : binade + 1 < 2 ^ f.exponentBits - 1 :=
      Nat.lt_of_mul_lt_mul_right (Nat.lt_of_le_of_lt (Nat.le_add_right ..) h)
    omega

/-- The second format has no fewer digits, places no fewer below the point, and a range to match. -/
structure Extends (f g : FloatFormat) : Prop where
  significand : f.significandBits ≤ g.significandBits
  exponent : 2 ≤ g.exponentBits
  scale : f.scale ≤ g.scale
  range : f.significandBits + 1 + 2 ^ f.exponentBits + (g.scale - f.scale) ≤ g.significandBits + 2 ^ g.exponentBits - 3

theorem binary32_extends : Extends binary32 binary64 := ⟨by decide, by decide, by decide, by decide⟩

/-- The larger format holds each finite magnitude of the smaller one, and rounding finds it. -/
theorem Extends.units_nearestRank (h : Extends f g) {rank : Nat} (hrank : rank < f.infinityRank) :
    g.nearestRank (f.units rank * 2 ^ g.scale) (2 ^ f.scale) < g.infinityRank ∧
      g.units (g.nearestRank (f.units rank * 2 ^ g.scale) (2 ^ f.scale)) * 2 ^ f.scale =
        f.units rank * 2 ^ g.scale := by
  obtain ⟨significand, shift, hsignificand, hshift, hunits⟩ := exists_units_of_lt hrank
  have hscale : g.scale = g.scale - f.scale + f.scale := (Nat.sub_add_cancel h.scale).symm
  have hwide : significand < 2 ^ (g.significandBits + 1) :=
    Nat.lt_of_lt_of_le hsignificand (Nat.pow_le_pow_right Nat.two_pos (Nat.succ_le_succ h.significand))
  obtain ⟨place, hplace⟩ := exists_units_eq (shift + (g.scale - f.scale)) hwide
  have hnum : f.units rank * 2 ^ g.scale = g.units place * 2 ^ f.scale := by
    rw [hplace, hunits, hscale, pow_add, pow_add, Nat.add_sub_cancel]
    ring
  have hfinite : g.nearestRank (f.units rank * 2 ^ g.scale) (2 ^ f.scale) < g.infinityRank := by
    apply nearestRank_lt h.exponent
    rw [hnum, Nat.mul_div_cancel _ (Nat.two_pow_pos _), hplace]
    calc significand * 2 ^ (shift + (g.scale - f.scale))
        < 2 ^ (f.significandBits + 1) * 2 ^ (shift + (g.scale - f.scale)) :=
          Nat.mul_lt_mul_of_pos_right hsignificand (Nat.two_pow_pos _)
      _ = 2 ^ (f.significandBits + 1 + shift + (g.scale - f.scale)) := by ring
      _ ≤ 2 ^ (g.significandBits + 2 ^ g.exponentBits - 3) :=
          Nat.pow_le_pow_right Nat.two_pos (by have := h.range; omega)
  refine ⟨hfinite, ?_⟩
  rw [hnum, nearestRank_units place (Nat.two_pow_pos _)] at hfinite ⊢
  rw [Nat.min_eq_left (by omega)]

end FloatFormat

namespace Binary

variable {f g : FloatFormat}

/-- Two data, perhaps of different formats, are the same number; zeros have a sign. -/
def SameValue (x : Binary f) (y : Binary g) : Prop :=
  x.negative = y.negative ∧ f.units x.rank * Nat.pow 2 g.scale = g.units y.rank * Nat.pow 2 f.scale

theorem isNaN_of_isFinite {x : Binary f} (h : x.isFinite = true) : x.isNaN = false := by
  simp only [isFinite, isNaN, decide_eq_true_eq, decide_eq_false_iff_not] at h ⊢
  omega

theorem convert_of_isFinite {x : Binary f} (h : x.isFinite = true) :
    (x.convert : Binary g) = ofRatio x.negative (f.units x.rank) (Nat.pow 2 f.scale) := by
  rw [convert, isNaN_of_isFinite h, h]
  rfl

/-- A datum keeps its value in a format that extends its own. -/
theorem convert_sameValue (hformat : f.Extends g) {x : Binary f} (h : x.isFinite = true) :
    (x.convert : Binary g).isFinite = true ∧ x.SameValue (x.convert : Binary g) := by
  obtain ⟨hfinite, hvalue⟩ := hformat.units_nearestRank (of_decide_eq_true h)
  rw [convert_of_isFinite h]
  exact ⟨decide_eq_true hfinite, rfl, hvalue.symm⟩

theorem isFinite_infinity (negative : Bool) : (infinity negative : Binary f).isFinite = false :=
  decide_eq_false (Nat.lt_irrefl _)

theorem isFinite_nan : (nan : Binary f).isFinite = false :=
  decide_eq_false (Nat.not_lt.mpr (Nat.le_sub_one_of_lt f.infinityRank_lt))

/-- Only a finite datum becomes one. -/
theorem isFinite_convert (hformat : f.Extends g) (x : Binary f) : (x.convert : Binary g).isFinite = x.isFinite := by
  cases h : x.isFinite with
  | true => exact (convert_sameValue hformat h).1
  | false =>
    rw [convert]
    cases x.isNaN with
    | true => exact isFinite_nan
    | false =>
      rw [h]
      exact isFinite_infinity _

end Binary
end ComponentBinding
