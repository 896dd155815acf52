import ComponentBinding.Proofs.Number.Numeral
import ComponentBinding.Proofs.View.Slots

/-! Integer text for a member of kind long. Text in the range of a 64-bit integer gives its integer. Other integer
text is read as a double, and then the range is checked: no double between the bounds is left for it, but the least
64-bit integer is a double itself, and the integers that round to it from below pass for it. -/
namespace ComponentBinding

inductive Sign where
  | plus | minus
  deriving DecidableEq, Repr

/-- The text of an integer: perhaps a sign, then one or more digits, among blanks. -/
structure IntegerText where
  before : List Char
  sign? : Option Sign
  digits : List Char
  after : List Char
  blank_before : ∀ c ∈ before, Text.isBlank c = true
  digits_ne_nil : digits ≠ []
  isDigit : ∀ c ∈ digits, c.isDigit = true
  blank_after : ∀ c ∈ after, Text.isBlank c = true

namespace IntegerText

variable (t : IntegerText)

def sign : List Char :=
  match t.sign? with
  | none => []
  | some .plus => ['+']
  | some .minus => ['-']

def text : String := String.ofList (t.before ++ (t.sign ++ t.digits) ++ t.after)

/-- The integer that the text denotes. -/
def value : Int :=
  if t.sign? = some .minus then -(Decimal.digitsValue t.digits : Int) else Decimal.digitsValue t.digits

theorem trim_text : Text.trim t.text.toList = t.sign ++ t.digits := by
  rw [text, String.toList_ofList]
  refine Text.trim_append t.blank_before (fun c hc => ?_) t.blank_after
  rcases List.mem_append.mp hc with hsign | hdigit
  · unfold sign at hsign
    split at hsign
    · cases hsign
    · obtain rfl := List.mem_singleton.mp hsign
      decide
    · obtain rfl := List.mem_singleton.mp hsign
      decide
  · exact Text.isBlank_of_isDigit (t.isDigit c hdigit)

theorem splitSign_text : Decimal.splitSign (t.sign ++ t.digits) = (decide (t.sign? = some .minus), t.digits) := by
  unfold sign
  split
  next h => rw [List.nil_append, Decimal.splitSign_digits t.isDigit, h]; rfl
  next h => rw [h]; rfl
  next h => rw [h]; rfl

end IntegerText

namespace FloatFormat

/-- The rank nearest to a whole number. -/
def wholeRank (f : FloatFormat) (n : Nat) : Nat := f.nearestRank (n * Nat.pow 2 f.scale) 1

theorem pow_scale_pos (f : FloatFormat) : 0 < Nat.pow 2 f.scale := Nat.two_pow_pos _

theorem wholeRank_mono (f : FloatFormat) : Monotone f.wholeRank :=
  fun _ _ h => f.nearestRank_mono (Nat.mul_le_mul_right _ h) 1

/-- The rank of two to the power 63, the magnitude of the least 64-bit integer. -/
def edgeRank : Nat := 1086 * 2 ^ 52

theorem wholeRank_edge : binary64.wholeRank (2 ^ 63) = edgeRank := by decide +kernel

theorem units_edgeRank : binary64.units edgeRank = 2 ^ 63 * Nat.pow 2 binary64.scale := by decide +kernel

theorem edgeRank_lt : edgeRank < binary64.infinityRank := by decide +kernel

/-- Whole numbers above the edge round to it up to half the distance to the next double, and beyond it from there. -/
theorem wholeRank_le_edgeRank_iff {n : Nat} : binary64.wholeRank n ≤ edgeRank ↔ n ≤ 2 ^ 63 + 1024 := by
  have hhalf : binary64.wholeRank (2 ^ 63 + 1024) = edgeRank := by decide +kernel
  have hbeyond : binary64.wholeRank (2 ^ 63 + 1024 + 1) = edgeRank + 1 := by decide +kernel
  constructor
  · intro h
    by_contra hlarge
    have hmono := binary64.wholeRank_mono (Nat.lt_of_not_le hlarge)
    rw [hbeyond] at hmono
    omega
  · intro h
    rw [← hhalf]
    exact binary64.wholeRank_mono h

end FloatFormat

namespace Binary

open FloatFormat

theorem units_whole_iff {n : Nat} :
    binary64.units (binary64.wholeRank n) ≤ 2 ^ 63 * Nat.pow 2 binary64.scale ↔ n ≤ 2 ^ 63 + 1024 := by
  rw [← units_edgeRank, binary64.units_strictMono.le_iff_le, wholeRank_le_edgeRank_iff]

theorem le_units_whole {n : Nat} (h : 2 ^ 63 ≤ n) :
    2 ^ 63 * Nat.pow 2 binary64.scale ≤ binary64.units (binary64.wholeRank n) := by
  rw [← units_edgeRank, binary64.units_strictMono.le_iff_le, ← wholeRank_edge]
  exact binary64.wholeRank_mono h

/-- Of the doubles nearest to whole numbers from the edge on, only the one at the negative edge is in the range. -/
theorem inRange_ofRatio_iff (negative : Bool) {n : Nat} (h : 2 ^ 63 ≤ n) :
    inRange Int64.minValue.toInt (Int64.maxValue.toInt + 1) (ofRatio negative n 1 : Binary64) = true ↔
      negative = true ∧ n ≤ 2 ^ 63 + 1024 := by
  have hmin : Int64.minValue.toInt = -2 ^ 63 := by decide
  have hmax : Int64.maxValue.toInt + 1 = 2 ^ 63 := by decide
  have hunits := le_units_whole h
  have hscale := binary64.pow_scale_pos
  have hrank : (ofRatio negative n 1 : Binary64).rank = binary64.wholeRank n := rfl
  have hsign : (ofRatio negative n 1 : Binary64).negative = negative := rfl
  simp only [inRange, isFinite, signedUnits, hrank, hsign, hmin, hmax, Bool.and_eq_true, decide_eq_true_eq]
  rw [← units_whole_iff]
  cases negative with
  | false =>
    refine iff_of_false (fun hrange => ?_) fun hfalse => Bool.false_ne_true hfalse.1
    have hbelow := hrange.2
    generalize Nat.pow 2 binary64.scale = scale at hunits hbelow
    rw [if_neg Bool.false_ne_true] at hbelow
    omega
  | true =>
    rw [if_pos rfl]
    constructor
    · rintro ⟨⟨_, habove⟩, _⟩
      refine ⟨rfl, ?_⟩
      generalize Nat.pow 2 binary64.scale = scale at habove ⊢
      omega
    · rintro ⟨_, hle⟩
      have hfinite : binary64.wholeRank n < binary64.infinityRank :=
        Nat.lt_of_le_of_lt (wholeRank_le_edgeRank_iff.mpr (units_whole_iff.mp hle)) edgeRank_lt
      refine ⟨⟨hfinite, ?_⟩, ?_⟩
      · generalize Nat.pow 2 binary64.scale = scale at hle ⊢
        omega
      · generalize Nat.pow 2 binary64.scale = scale at hscale ⊢
        omega

theorem truncate_ofRatio {n : Nat} (h : 2 ^ 63 ≤ n) (h' : n ≤ 2 ^ 63 + 1024) :
    truncate Int64.minValue.toInt Int64.maxValue.toInt (ofRatio true n 1 : Binary64) = Int64.minValue.toInt := by
  have hunits := Nat.le_antisymm (units_whole_iff.mpr h') (le_units_whole h)
  have hrank : (ofRatio true n 1 : Binary64).rank = binary64.wholeRank n := rfl
  have hsign : (ofRatio true n 1 : Binary64).negative = true := rfl
  have hfinite : (ofRatio true n 1 : Binary64).isFinite = true :=
    decide_eq_true (Nat.lt_of_le_of_lt (wholeRank_le_edgeRank_iff.mpr h') edgeRank_lt)
  rw [truncate, isNaN_of_isFinite hfinite, hfinite, hrank, hsign, hunits, Nat.mul_div_cancel _ binary64.pow_scale_pos]
  decide

/-- What lies in a range is finite. -/
theorem filter_inRange {f : FloatFormat} (lo hi : Int) (x : Binary f) :
    ((some x).filter isFinite).filter (inRange lo hi) = if inRange lo hi x = true then some x else none := by
  cases hrange : inRange lo hi x with
  | true =>
    have hfinite : x.isFinite = true := by
      simp only [inRange, Bool.and_eq_true] at hrange
      exact hrange.1.1
    simp [Option.filter_some, hfinite, hrange]
  | false => cases hfinite : x.isFinite <;> simp [Option.filter_some, hfinite, hrange]

end Binary

namespace IntegerText

variable (t : IntegerText)

/-- The integer is one of 64 bits. -/
def InRange : Prop := Int64.minValue.toInt ≤ t.value ∧ t.value ≤ Int64.maxValue.toInt

/-- The integer is below the least one of 64 bits, but a double does not tell them apart. -/
def RoundsToLeast : Prop := Int64.minValue.toInt - 1024 ≤ t.value ∧ t.value < Int64.minValue.toInt

instance : Decidable t.InRange := inferInstanceAs (Decidable (_ ∧ _))

instance : Decidable t.RoundsToLeast := inferInstanceAs (Decidable (_ ∧ _))

theorem le_digitsValue (h : ¬t.InRange) : 2 ^ 63 ≤ Decimal.digitsValue t.digits := by
  have hmin : Int64.minValue.toInt = -2 ^ 63 := by decide
  have hmax : Int64.maxValue.toInt = 2 ^ 63 - 1 := by decide
  unfold InRange value at h
  split at h <;> omega

theorem roundsToLeast_iff (h : ¬t.InRange) :
    t.RoundsToLeast ↔ t.sign? = some .minus ∧ Decimal.digitsValue t.digits ≤ 2 ^ 63 + 1024 := by
  have hmin : Int64.minValue.toInt = -2 ^ 63 := by decide
  have hmax : Int64.maxValue.toInt = 2 ^ 63 - 1 := by decide
  unfold RoundsToLeast value
  unfold InRange value at h
  by_cases hminus : t.sign? = some .minus
  · rw [if_pos hminus] at h ⊢
    simp only [hminus, true_and]
    omega
  · rw [if_neg hminus]
    simp only [hminus, false_and, iff_false]
    omega

theorem readInt?_text : Decimal.readInt? (t.sign ++ t.digits) = some t.value := by
  rw [Decimal.readInt?_signed t.splitSign_text t.isDigit t.digits_ne_nil]
  simp only [value, decide_eq_true_eq]

/-- The double nearest to the integer, unless that is infinite. -/
theorem readDouble?_text :
    Property.readDouble? t.text =
      (some (.ofRatio (decide (t.sign? = some .minus)) (Decimal.digitsValue t.digits) 1)).filter Binary.isFinite := by
  rw [Property.readDouble?, trim_text, Decimal.read?_signed t.splitSign_text t.isDigit t.digits_ne_nil, Option.map_some,
    Decimal.toBinary_digits _ t.isDigit]

theorem readInt64?_text :
    Property.readInt64? t.text =
      if t.InRange then some (.ofInt t.value) else if t.RoundsToLeast then some Int64.minValue else none := by
  have hfilter : (decide (Int64.minValue.toInt ≤ t.value) && decide (t.value ≤ Int64.maxValue.toInt)) =
      decide t.InRange := (Bool.decide_and ..).symm
  rw [Property.readInt64?, trim_text, readInt?_text, Option.filter_some, hfilter]
  by_cases hrange : t.InRange
  · simp only [hrange, decide_true, if_true]
  · have hedge := t.le_digitsValue hrange
    have hpass := Binary.inRange_ofRatio_iff (decide (t.sign? = some .minus)) hedge
    rw [decide_eq_true_eq, ← t.roundsToLeast_iff hrange] at hpass
    simp only [hrange, decide_false, Bool.false_eq_true, if_false, readDouble?_text, Binary.filter_inRange]
    by_cases hround : t.RoundsToLeast
    · obtain ⟨hminus, hhalf⟩ := (t.roundsToLeast_iff hrange).mp hround
      rw [if_pos (hpass.mpr hround), if_pos hround, Option.map_some, decide_eq_true hminus,
        Binary.truncate_ofRatio hedge hhalf, Int64.ofInt_toInt]
    · rw [if_neg fun h => hround (hpass.mp h), if_neg hround, Option.map_none]

theorem coerce_long (resolver : TypeResolver) :
    Kind.coerce resolver .long (.string t.text) =
      if t.InRange then .ok (.long (.ofInt t.value))
      else if t.RoundsToLeast then .ok (.long Int64.minValue)
      else .error (Kind.long.incompatible (.string t.text)) := by
  have hconvert : Kind.convert? (.string t.text) .long = (Property.readInt64? t.text).map .long := rfl
  simp only [Kind.coerce, Kind.coerceScalar, hconvert, readInt64?_text]
  by_cases hrange : t.InRange
  · simp only [hrange, if_true, Option.map_some]
  · by_cases hround : t.RoundsToLeast <;> simp [hrange, hround]

theorem inRange_of_toInt {value : Int64} (h : value.toInt = t.value) : t.InRange := by
  rw [InRange, ← h]
  exact ⟨value.minValue_le_toInt, value.toInt_le⟩

theorem coerce_long_eq_ok_iff (resolver : TypeResolver) {value : Int64} :
    Kind.coerce resolver .long (.string t.text) = .ok (.long value) ↔
      value.toInt = t.value ∨ value = Int64.minValue ∧ t.RoundsToLeast := by
  rw [t.coerce_long]
  by_cases hrange : t.InRange
  · have hround : ¬t.RoundsToLeast := fun h => absurd hrange.1 (Int.not_le.mpr h.2)
    rw [if_pos hrange]
    constructor
    · intro h
      cases h
      exact .inl (Int64.toInt_ofInt_of_le hrange.1 (Int.lt_of_le_of_lt hrange.2 (by decide)))
    · rintro (h | ⟨_, h⟩)
      · rw [← h, Int64.ofInt_toInt]
      · exact absurd h hround
  · have hother : value.toInt ≠ t.value := fun h => hrange (t.inRange_of_toInt h)
    rw [if_neg hrange]
    by_cases hround : t.RoundsToLeast
    · rw [if_pos hround]
      constructor
      · intro h
        cases h
        exact .inr ⟨rfl, hround⟩
      · rintro (h | ⟨rfl, _⟩)
        · exact absurd h hother
        · rfl
    · rw [if_neg hround]
      refine iff_of_false (fun h => ?_) fun h => h.elim hother fun h => hround h.2
      cases h

theorem exists_coerce_long_iff (resolver : TypeResolver) :
    (∃ value, Kind.coerce resolver .long (.string t.text) = .ok value) ↔ t.InRange ∨ t.RoundsToLeast := by
  rw [t.coerce_long]
  by_cases hrange : t.InRange
  · exact iff_of_true ⟨_, if_pos hrange⟩ (.inl hrange)
  · by_cases hround : t.RoundsToLeast <;> simp [hrange, hround]

end IntegerText

/-- A single member that is no view takes its default or zero value if its entry cannot be coerced. -/
theorem Materializer.memberAt_of_refused (m : Materializer) (depth : Nat) (config : Properties) {name : String}
    {kind : Kind} (hview : kind.isView = false) (default? : Option Property) {value : Property} {error : CoercionError}
    (configured : config.lookup (memberKey name) = some value) (scalar : value.first? = some value)
    (refused : kind.coerce m.resolver value = .error error) :
    (m.memberAt depth config ⟨name, kind, false, default?⟩).value =
      (m.memberAt depth [] ⟨name, kind, false, default?⟩).value := by
  have hnone : (kind.coerce m.resolver value).toOption = none := by
    rw [refused]
    rfl
  simp only [memberAt_single, hview, Bool.false_and, Bool.false_eq_true, if_false, m.scalarOf_of_not_view hview,
    Materializer.scalar, firstCoerced_value, configured]
  simp [scalar, hnone]

namespace IntegerText

variable (t : IntegerText)

/-- Text of kind long is taken if its integer is in the range, and then gives that integer. Of the other integers only
those that round to the least one are taken, and give it. All others are refused, and the member is what it is without
an entry: its default, or zero. -/
theorem coerce_long_iff (m : Materializer) :
    (∀ value : Int64, Kind.coerce m.resolver .long (.string t.text) = .ok (.long value) ↔
      value.toInt = t.value ∨ value = Int64.minValue ∧ t.RoundsToLeast) ∧
    ((∃ value, Kind.coerce m.resolver .long (.string t.text) = .ok value) ↔ t.InRange ∨ t.RoundsToLeast) ∧
    (¬t.InRange → ¬t.RoundsToLeast →
      ∀ depth name default? config, config.lookup (memberKey name) = some (.string t.text) →
        (m.memberAt depth config ⟨name, .long, false, default?⟩).value =
          (m.memberAt depth [] ⟨name, .long, false, default?⟩).value) := by
  refine ⟨fun value => t.coerce_long_eq_ok_iff m.resolver, t.exists_coerce_long_iff m.resolver, ?_⟩
  intro hrange hround depth name default? config configured
  have hrefused := t.coerce_long m.resolver
  rw [if_neg hrange, if_neg hround] at hrefused
  exact m.memberAt_of_refused depth config rfl default? configured rfl hrefused

/-- The greatest integer that is refused below the range: the default takes its place. -/
theorem coerce_long_iff_refused :
    let m : Materializer := { resolver := .known [] }
    let t : IntegerText := ⟨[' '], some .minus, "9223372036854776833".toList, ['\t'],
      List.all_eq_true.mp (by decide), by decide, List.all_eq_true.mp (by decide), List.all_eq_true.mp (by decide)⟩
    let config : Properties := [("port", .string t.text)]
    t.text = " -9223372036854776833\t" ∧ ¬t.InRange ∧ ¬t.RoundsToLeast ∧
    config.lookup (memberKey "port") = some (.string t.text) ∧
    (m.memberAt 0 config ⟨"port", .long, false, some (.long 80)⟩).value = some (.long 80) := by
  intro m t config
  have hkey : memberKey "port" = "port" := by decide
  have hrange : ¬t.InRange := by decide
  have hround : ¬t.RoundsToLeast := by decide
  have configured : config.lookup (memberKey "port") = some (.string t.text) := by
    rw [hkey]
    rfl
  have hmember := (t.coerce_long_iff m).2.2 hrange hround 0 "port" (some (.long 80)) config configured
  exact ⟨by decide, hrange, hround, configured, hmember.trans rfl⟩

/-- One below the range the text is taken for the least integer. -/
theorem long_below_range_taken :
    let t : IntegerText := ⟨[], some .minus, "9223372036854775809".toList, [],
      List.forall_mem_nil _, by decide, List.all_eq_true.mp (by decide), List.forall_mem_nil _⟩
    t.text = "-9223372036854775809" ∧ t.value = -9223372036854775809 ∧ ¬t.InRange ∧
    Kind.coerce (.known []) .long (.string t.text) = .ok (.long Int64.minValue) := by
  intro t
  have hrange : ¬t.InRange := by decide
  have hround : t.RoundsToLeast := by decide
  refine ⟨by decide, by decide, hrange, ?_⟩
  rw [t.coerce_long, if_neg hrange, if_pos hround]

end IntegerText
end ComponentBinding
