import ComponentBinding.Proofs.Number.Rank
import ComponentBinding.View.Coercion
import Mathlib.Data.List.TakeWhile

/-! The decimal text of an integer. Read as an integer it gives the integer back, and read as a double the double
nearest to the integer: all its digits count, also where they are more than a double can hold. -/
namespace ComponentBinding
namespace Text

theorem dropWhile_isBlank {text : List Char} (h : ∀ c ∈ text, isBlank c = false) : text.dropWhile isBlank = text := by
  cases text with
  | nil => rfl
  | cons c rest => simp [h c (List.mem_cons_self ..)]

/-- Blanks at the two ends are trimmed. -/
theorem trim_append {before text after : List Char} (hbefore : ∀ c ∈ before, isBlank c = true)
    (htext : ∀ c ∈ text, isBlank c = false) (hafter : ∀ c ∈ after, isBlank c = true) :
    trim (before ++ text ++ after) = text := by
  have hreverse : ∀ c ∈ after.reverse, isBlank c = true := fun c hc => hafter c (List.mem_reverse.mp hc)
  have htext' : ∀ c ∈ text.reverse, isBlank c = false := fun c hc => htext c (List.mem_reverse.mp hc)
  cases text with
  | nil =>
    have hall : ∀ c ∈ before ++ after, isBlank c = true := by
      intro c hc
      exact (List.mem_append.mp hc).elim (hbefore c) (hafter c)
    rw [trim, List.append_nil, List.dropWhile_eq_nil_iff.mpr hall]
    rfl
  | cons first rest =>
    have hfirst : ¬isBlank first = true := by simp [htext first List.mem_cons_self]
    rw [trim, List.append_assoc, List.dropWhile_append_of_pos hbefore, List.cons_append,
      List.dropWhile_cons_of_neg hfirst, ← List.cons_append, List.reverse_append,
      List.dropWhile_append_of_pos hreverse, dropWhile_isBlank htext', List.reverse_reverse]

theorem trim_eq {text : List Char} (h : ∀ c ∈ text, isBlank c = false) : trim text = text := by
  have htrim := trim_append (List.forall_mem_nil _) h (List.forall_mem_nil _)
  rwa [List.nil_append, List.append_nil] at htrim

/-- The blanks lie before or beyond the printable ASCII characters. -/
theorem isBlank_of_printable {c : Char} (h : 0x21 ≤ c.toNat) (h' : c.toNat ≤ 0x7E) : isBlank c = false := by
  simp only [isBlank, blankRanges, List.any_cons, List.any_nil, Bool.or_false, Bool.or_eq_false_iff,
    Bool.and_eq_false_iff, decide_eq_false_iff_not]
  omega

theorem isBlank_of_isDigit {c : Char} (h : c.isDigit = true) : isBlank c = false := by
  obtain ⟨hlow, hhigh⟩ := Char.isDigit_iff_toNat.mp h
  exact isBlank_of_printable (Nat.le_trans (by decide) hlow) (Nat.le_trans hhigh (by decide))

end Text

namespace Decimal

theorem digitsValue_toDigits (n : Nat) : digitsValue (Nat.toDigits 10 n) = n := Nat.ofDigitChars_ten_toDigits

theorem toList_ofInt (n : Int) :
    (ofInt n).toList = if n < 0 then '-' :: Nat.toDigits 10 n.natAbs else Nat.toDigits 10 n.natAbs := by
  unfold ofInt ofNat
  split <;> simp

theorem splitSign_digits {digits : List Char} (h : ∀ c ∈ digits, c.isDigit = true) :
    splitSign digits = (false, digits) := by
  unfold splitSign
  split
  · exact absurd (h '-' (List.mem_cons_self ..)) (by decide)
  · exact absurd (h '+' (List.mem_cons_self ..)) (by decide)
  · rfl

theorem isDigit_toDigits (n : Nat) : ∀ c ∈ Nat.toDigits 10 n, c.isDigit = true :=
  fun _ hc => Nat.isDigit_of_mem_toDigits (by decide) (by decide) hc

theorem splitSign_ofInt (n : Int) : splitSign (ofInt n).toList = (decide (n < 0), Nat.toDigits 10 n.natAbs) := by
  rw [toList_ofInt]
  split
  next h => simp [splitSign, h]
  next h => rw [splitSign_digits (isDigit_toDigits _), decide_eq_false h]

section Signed

variable {text digits : List Char} {negative : Bool} (hsign : splitSign text = (negative, digits))
  (hdigits : ∀ c ∈ digits, c.isDigit = true) (hne : digits ≠ [])
include hsign hdigits hne

theorem readInt?_signed :
    readInt? text = some (if negative then -(digitsValue digits : Int) else digitsValue digits) := by
  have hall : digits.all Char.isDigit = true := List.all_eq_true.mpr hdigits
  have hnonempty : digits.isEmpty = false := List.isEmpty_eq_false_iff.mpr hne
  simp only [readInt?, hsign, hall, hnonempty, Bool.not_true, Bool.or_false, Bool.false_eq_true, if_false]

theorem read?_signed : read? text = some ⟨negative, digits, 0⟩ := by
  simp [read?, hsign, hne, readExponent?, List.takeWhile_eq_self_iff.mpr hdigits,
    List.dropWhile_eq_nil_iff.mpr hdigits]

end Signed

/-- An integer is read back from its text. -/
theorem readInt?_ofInt (n : Int) : readInt? (ofInt n).toList = some n := by
  rw [readInt?_signed (splitSign_ofInt n) (isDigit_toDigits _) (by simp), digitsValue_toDigits]
  simp only [decide_eq_true_eq]
  congr 1
  omega

theorem read?_ofInt (n : Int) : read? (ofInt n).toList = some ⟨n < 0, Nat.toDigits 10 n.natAbs, 0⟩ :=
  read?_signed (splitSign_ofInt n) (isDigit_toDigits _) (by simp)

/-- An integer has no blanks to trim. -/
theorem trim_ofInt (n : Int) : Text.trim (ofInt n).toList = (ofInt n).toList := by
  have hdigit : ∀ c ∈ Nat.toDigits 10 n.natAbs, Text.isBlank c = false := fun c hc =>
    Text.isBlank_of_isDigit (isDigit_toDigits _ c hc)
  apply Text.trim_eq
  rw [toList_ofInt]
  split
  · intro c hc
    rcases List.mem_cons.mp hc with rfl | hc
    · decide
    · exact hdigit c hc
  · exact hdigit

/-- Leading zeros count nothing. -/
theorem digitsValue_dropWhile (digits : List Char) :
    digitsValue (digits.dropWhile (· == '0')) = digitsValue digits := by
  induction digits with
  | nil => rfl
  | cons c rest ih =>
    by_cases h : c = '0'
    · subst h
      simpa [digitsValue] using ih
    · simp [h]

theorem digitsValue_cons (c : Char) (rest : List Char) :
    digitsValue (c :: rest) = 10 ^ rest.length * (c.toNat - '0'.toNat) + digitsValue rest := by
  have hvalue : digitsValue (c :: rest) = Nat.ofDigitChars 10 rest (10 * 0 + (c.toNat - '0'.toNat)) := rfl
  rw [hvalue, Nat.ofDigitChars_eq_ofDigitChars_zero, Nat.mul_zero, Nat.zero_add]
  rfl

/-- A significant first digit bounds the value by the length. -/
theorem pow_le_digitsValue {first : Char} (hdigit : first.isDigit = true) (hne : first ≠ '0') (rest : List Char) :
    10 ^ rest.length ≤ digitsValue (first :: rest) := by
  have hzero : '0'.toNat = 48 := rfl
  have hfirst : 1 ≤ first.toNat - '0'.toNat := by
    have hlow := (Char.isDigit_iff_toNat.mp hdigit).1
    have hother : first.toNat ≠ '0'.toNat := fun h => hne (Char.toNat_inj.mp h)
    omega
  rw [digitsValue_cons]
  exact Nat.le_add_right_of_le (Nat.le_mul_of_pos_right _ hfirst)

theorem digitsValue_lt {digits : List Char} (h : ∀ c ∈ digits, c.isDigit = true) :
    digitsValue digits < 10 ^ digits.length := by
  induction digits with
  | nil => decide
  | cons first rest ih =>
    have hzero : '0'.toNat = 48 := rfl
    have hnine : '9'.toNat = 57 := rfl
    have hfirst : first.toNat - '0'.toNat + 1 ≤ 10 := by
      have hhigh := (Char.isDigit_iff_toNat.mp (h first List.mem_cons_self)).2
      omega
    have hrest := ih fun c hc => h c (List.mem_cons_of_mem _ hc)
    calc digitsValue (first :: rest)
        = 10 ^ rest.length * (first.toNat - '0'.toNat) + digitsValue rest := digitsValue_cons first rest
      _ < 10 ^ rest.length * (first.toNat - '0'.toNat) + 10 ^ rest.length := Nat.add_lt_add_left hrest _
      _ = 10 ^ rest.length * (first.toNat - '0'.toNat + 1) := (Nat.mul_succ ..).symm
      _ ≤ 10 ^ rest.length * 10 := Nat.mul_le_mul_left _ hfirst
      _ = 10 ^ (first :: rest).length := (Nat.pow_succ ..).symm

end Decimal

namespace Binary

variable {f : FloatFormat}

/-- A quotient below half a unit rounds to zero. -/
theorem ofRatio_of_small (negative : Bool) {num den : Nat} (h : 2 * (num * 2 ^ f.scale) < den) :
    (ofRatio negative num den : Binary f) = zero negative := by
  have hquotient : num * 2 ^ f.scale / den = 0 := Nat.div_eq_of_lt (by omega)
  have hmod : num * 2 ^ f.scale % den = num * 2 ^ f.scale := Nat.mod_eq_of_lt (by omega)
  have hrank : f.nearestRank (num * 2 ^ f.scale) den = 0 := by
    simp [FloatFormat.nearestRank, FloatFormat.roundHalfEven, hquotient, hmod, h]
  simp only [ofRatio, ofUnits, zero, Nat.pow_eq, hrank]

/-- An integer with few enough digits for the range of a format has a finite datum nearest to it. -/
theorem isFinite_ofInt {n : Int} {bits : Nat} (h : n.natAbs < 2 ^ bits) (hexponent : 2 ≤ f.exponentBits)
    (hrange : bits + f.scale ≤ f.significandBits + 2 ^ f.exponentBits - 3) : (ofInt n : Binary f).isFinite = true := by
  have hbound : n.natAbs * 2 ^ f.scale / 1 < 2 ^ (f.significandBits + 2 ^ f.exponentBits - 3) := by
    calc n.natAbs * 2 ^ f.scale / 1
        = n.natAbs * 2 ^ f.scale := Nat.div_one _
      _ < 2 ^ bits * 2 ^ f.scale := Nat.mul_lt_mul_of_pos_right h (Nat.two_pow_pos _)
      _ = 2 ^ (bits + f.scale) := (pow_add ..).symm
      _ ≤ 2 ^ (f.significandBits + 2 ^ f.exponentBits - 3) := Nat.pow_le_pow_right Nat.two_pos hrange
  exact decide_eq_true (FloatFormat.nearestRank_lt hexponent hbound)

/-- A number of so many decimal places is beyond a format of so many exponent bits. -/
theorem ofRatio_of_large (negative : Bool) {num den : Nat} (hden : 0 < den)
    (h : 10 ^ 2 ^ (f.exponentBits - 1) * den ≤ num) : (ofRatio negative num den : Binary f) = infinity negative := by
  have hscale : f.scale = 2 ^ (f.exponentBits - 1) + f.significandBits - 2 := rfl
  have hrange : 2 ^ f.exponentBits ≤ 2 * 2 ^ (f.exponentBits - 1) := by
    rw [← Nat.pow_succ']
    exact Nat.pow_le_pow_right Nat.two_pos (by omega)
  have hlarge : 2 ^ (f.significandBits + 2 ^ f.exponentBits - 1) ≤ num * 2 ^ f.scale / den := by
    rw [Nat.le_div_iff_mul_le hden]
    calc 2 ^ (f.significandBits + 2 ^ f.exponentBits - 1) * den
        ≤ 2 ^ (3 * 2 ^ (f.exponentBits - 1) + f.scale) * den :=
          Nat.mul_le_mul_right _
            (Nat.pow_le_pow_right Nat.two_pos (by have := Nat.two_pow_pos (f.exponentBits - 1); omega))
      _ = (2 ^ 3) ^ 2 ^ (f.exponentBits - 1) * den * 2 ^ f.scale := by rw [pow_add, pow_mul, Nat.mul_right_comm]
      _ ≤ 10 ^ 2 ^ (f.exponentBits - 1) * den * 2 ^ f.scale :=
          Nat.mul_le_mul_right _ (Nat.mul_le_mul_right _ (Nat.pow_le_pow_left (by decide) _))
      _ ≤ num * 2 ^ f.scale := Nat.mul_le_mul_right _ h
  simp only [ofRatio, ofUnits, infinity, Nat.pow_eq, FloatFormat.nearestRank_of_le hlarge]

end Binary

namespace Decimal

section Extremes

variable {f : FloatFormat} {significant : List Char} {exponent : Int}
  (hdigits : ∀ c ∈ significant, c.isDigit = true)
include hdigits

/-- A number whose first digit is that far behind the point is below half a unit. -/
theorem small_of_top (h : significant.length + exponent < -(f.scale : Int)) :
    2 * (digitsValue significant * 10 ^ exponent.toNat * 2 ^ f.scale) < 10 ^ (-exponent).toNat := by
  have hwhole : exponent.toNat = 0 := by omega
  calc 2 * (digitsValue significant * 10 ^ exponent.toNat * 2 ^ f.scale)
      = digitsValue significant * 2 ^ (f.scale + 1) := by rw [hwhole, pow_zero, Nat.mul_one]; ring
    _ ≤ digitsValue significant * 10 ^ (f.scale + 1) := Nat.mul_le_mul_left _ (Nat.pow_le_pow_left (by decide) _)
    _ < 10 ^ significant.length * 10 ^ (f.scale + 1) :=
        Nat.mul_lt_mul_of_pos_right (digitsValue_lt hdigits) (Nat.pow_pos (by decide))
    _ = 10 ^ (significant.length + (f.scale + 1)) := (pow_add ..).symm
    _ ≤ 10 ^ (-exponent).toNat := Nat.pow_le_pow_right (by decide) (by omega)

/-- A number with so many digits before the point is no less than the power of ten. -/
theorem large_of_top {bound : Nat} (hfirst : significant.head? ≠ some '0') (hne : significant ≠ [])
    (h : bound < significant.length + exponent) :
    10 ^ bound * 10 ^ (-exponent).toNat ≤ digitsValue significant * 10 ^ exponent.toNat := by
  cases significant with
  | nil => exact absurd rfl hne
  | cons first rest =>
    have hother : first ≠ '0' := fun heq => hfirst (congrArg some heq)
    have hvalue := pow_le_digitsValue (hdigits first List.mem_cons_self) hother rest
    rw [List.length_cons] at h
    calc 10 ^ bound * 10 ^ (-exponent).toNat
        = 10 ^ (bound + (-exponent).toNat) := (pow_add ..).symm
      _ ≤ 10 ^ (rest.length + exponent.toNat) := Nat.pow_le_pow_right (by decide) (by omega)
      _ = 10 ^ rest.length * 10 ^ exponent.toNat := pow_add ..
      _ ≤ digitsValue (first :: rest) * 10 ^ exponent.toNat := Nat.mul_le_mul_right _ hvalue

end Extremes

/-- A numeral denotes the datum nearest to its exact quotient. Where it counts as zero or infinite without a power of
ten, the quotient rounds so too. -/
theorem toBinary_eq_ofRatio {f : FloatFormat} {d : Decimal} (h : ∀ c ∈ d.digits, c.isDigit = true) :
    (d.toBinary : Binary f) =
      .ofRatio d.negative (digitsValue d.digits * 10 ^ d.exponent.toNat) (10 ^ (-d.exponent).toNat) := by
  have hdigits : ∀ c ∈ d.digits.dropWhile (· == '0'), c.isDigit = true :=
    fun c hc => h c ((List.dropWhile_sublist _).mem hc)
  have hhead := List.head?_dropWhile_not (· == '0') d.digits
  rw [← digitsValue_dropWhile d.digits]
  unfold toBinary
  generalize d.digits.dropWhile (· == '0') = significant at hdigits hhead ⊢
  dsimp only
  split
  next hzero =>
    refine (Binary.ofRatio_of_small d.negative ?_).symm
    rcases Bool.or_eq_true_iff.mp hzero with hempty | hlow
    · simp [List.isEmpty_iff.mp hempty, digitsValue]
    · exact small_of_top hdigits (of_decide_eq_true hlow)
  next hsome =>
    have hne : significant ≠ [] := fun hempty => hsome (by rw [hempty]; rfl)
    split
    next hhigh =>
      have hfirst : significant.head? ≠ some '0' := by
        intro hsome
        simp [hsome] at hhead
      exact (Binary.ofRatio_of_large d.negative (Nat.pow_pos (by decide)) (large_of_top hdigits hfirst hne hhigh)).symm
    next =>
      split
      next =>
        have hden : (-d.exponent).toNat = 0 := by omega
        simp [hden]
      next =>
        have hnum : d.exponent.toNat = 0 := by omega
        simp [hnum]

/-- A numeral without a fraction or an exponent denotes the datum nearest to its digits' value. -/
theorem toBinary_digits {f : FloatFormat} (negative : Bool) {digits : List Char}
    (h : ∀ c ∈ digits, c.isDigit = true) :
    toBinary ⟨negative, digits, 0⟩ = (.ofRatio negative (digitsValue digits) 1 : Binary f) := by
  rw [toBinary_eq_ofRatio h]
  simp

end Decimal

namespace Property

variable {n : Int}

/-- The double that the text of a 64-bit integer denotes is the one nearest to the integer. -/
theorem readDouble?_ofInt (h : Int64.minValue.toInt ≤ n) (h' : n ≤ Int64.maxValue.toInt) :
    readDouble? (Decimal.ofInt n) = some (.ofInt n) := by
  have hmin : Int64.minValue.toInt = -2 ^ 63 := by decide
  have hmax : Int64.maxValue.toInt = 2 ^ 63 - 1 := by decide
  have hnearest : Decimal.toBinary ⟨n < 0, Nat.toDigits 10 n.natAbs, 0⟩ = (.ofInt n : Binary64) := by
    rw [Decimal.toBinary_digits _ (Decimal.isDigit_toDigits _), Decimal.digitsValue_toDigits]
    rfl
  have hfinite : (Binary.ofInt n : Binary64).isFinite = true :=
    Binary.isFinite_ofInt (show n.natAbs < 2 ^ 64 by omega) (by decide) (by decide)
  simp [readDouble?, Decimal.trim_ofInt, Decimal.read?_ofInt, hnearest, hfinite]

theorem readInt64?_ofInt (h : Int64.minValue.toInt ≤ n) (h' : n ≤ Int64.maxValue.toInt) :
    readInt64? (Decimal.ofInt n) = some (.ofInt n) := by
  have hrange : (decide (Int64.minValue.toInt ≤ n) && decide (n ≤ Int64.maxValue.toInt)) = true := by
    rw [decide_eq_true h, decide_eq_true h', Bool.and_self]
  simp only [readInt64?, Decimal.trim_ofInt, Decimal.readInt?_ofInt, Option.filter_some, hrange, if_true]

end Property
end ComponentBinding
