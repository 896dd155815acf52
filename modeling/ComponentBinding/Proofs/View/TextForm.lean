import ComponentBinding.Proofs.Number.Numeral

/-! Numbers and truth values in their text form. A host hands over an integer, a configuration file its
digits: a kind whose range holds the integer makes the same value of both. -/
namespace ComponentBinding

namespace Property

/-- The integer that a value holds in one of the four widths. -/
def integer? : Property → Option Int
  | .byte value => some value.toInt
  | .short value => some value.toInt
  | .int value => some value.toInt
  | .long value => some value.toInt
  | _ => none

variable {value : Property} {n : Int}

theorem integer?_cases (h : value.integer? = some n) :
    (∃ v : Int8, value = .byte v ∧ v.toInt = n) ∨ (∃ v : Int16, value = .short v ∧ v.toInt = n) ∨
      (∃ v : Int32, value = .int v ∧ v.toInt = n) ∨ ∃ v : Int64, value = .long v ∧ v.toInt = n := by
  cases value with
  | byte v => exact .inl ⟨v, rfl, Option.some.inj h⟩
  | short v => exact .inr (.inl ⟨v, rfl, Option.some.inj h⟩)
  | int v => exact .inr (.inr (.inl ⟨v, rfl, Option.some.inj h⟩))
  | long v => exact .inr (.inr (.inr ⟨v, rfl, Option.some.inj h⟩))
  | _ => cases h

theorem int64?_of_integer (h : value.integer? = some n) : value.int64? = some (.ofInt n) := by
  rcases integer?_cases h with ⟨v, rfl, rfl⟩ | ⟨v, rfl, rfl⟩ | ⟨v, rfl, rfl⟩ | ⟨v, rfl, rfl⟩ <;> simp [int64?]

theorem double?_of_integer (h : value.integer? = some n) : value.double? = some (.ofInt n) := by
  rcases integer?_cases h with ⟨v, rfl, rfl⟩ | ⟨v, rfl, rfl⟩ | ⟨v, rfl, rfl⟩ | ⟨v, rfl, rfl⟩ <;> rfl

theorem text_of_integer (h : value.integer? = some n) : value.text = Decimal.ofInt n := by
  rcases integer?_cases h with ⟨v, rfl, rfl⟩ | ⟨v, rfl, rfl⟩ | ⟨v, rfl, rfl⟩ | ⟨v, rfl, rfl⟩ <;> rw [text]

/-- The widest of the four widths holds what the others hold. -/
theorem range_of_integer (h : value.integer? = some n) :
    Int64.minValue.toInt ≤ n ∧ n ≤ Int64.maxValue.toInt := by
  obtain ⟨wide, rfl⟩ : ∃ wide : Int64, wide.toInt = n := by
    rcases integer?_cases h with ⟨v, rfl, rfl⟩ | ⟨v, rfl, rfl⟩ | ⟨v, rfl, rfl⟩ | ⟨v, rfl, rfl⟩
    · exact ⟨v.toInt64, v.toInt_toInt64⟩
    · exact ⟨v.toInt64, v.toInt_toInt64⟩
    · exact ⟨v.toInt64, v.toInt_toInt64⟩
    · exact ⟨v, rfl⟩
  exact ⟨wide.minValue_le_toInt, wide.toInt_le⟩

theorem isNumeric_of_integer (h : value.integer? = some n) : value.isNumeric = true := by
  rcases integer?_cases h with ⟨v, rfl, rfl⟩ | ⟨v, rfl, rfl⟩ | ⟨v, rfl, rfl⟩ | ⟨v, rfl, rfl⟩ <;> rfl

/-! A number is converted as a number. -/

theorem toBool?_of_isNumeric (h : value.isNumeric = true) :
    value.toBool? = value.double?.map fun double => !double.isZero := by
  cases value with
  | bool | string | array | map => cases h
  | _ => rfl

theorem toDouble?_of_isNumeric (h : value.isNumeric = true) : value.toDouble? = value.double? := by
  cases value with
  | bool | string | array | map => cases h
  | _ => rfl

theorem toInt64?_of_isNumeric (h : value.isNumeric = true) : value.toInt64? = value.int64? := by
  cases value with
  | bool | string | array | map => cases h
  | _ => rfl

theorem toNarrow?_of_isNumeric {α : Type} (lo hi : Int) (narrow : Int64 → α) (h : value.isNumeric = true) :
    value.toNarrow? lo hi narrow = value.int64?.map narrow := by
  cases value with
  | bool | string | array | map => cases h
  | _ => rfl

/-! The text of an integer is converted as the integer. -/

theorem toDouble?_text (h : value.integer? = some n) : value.toDouble? = toDouble? (.string (Decimal.ofInt n)) := by
  obtain ⟨hmin, hmax⟩ := range_of_integer h
  rw [toDouble?_of_isNumeric (isNumeric_of_integer h), double?_of_integer h, toDouble?, readDouble?_ofInt hmin hmax]

theorem toInt64?_text (h : value.integer? = some n) : value.toInt64? = toInt64? (.string (Decimal.ofInt n)) := by
  obtain ⟨hmin, hmax⟩ := range_of_integer h
  rw [toInt64?_of_isNumeric (isNumeric_of_integer h), int64?_of_integer h, toInt64?, readInt64?_ofInt hmin hmax]

theorem toBool?_string {text : String} (h : text ≠ "true") (h' : text ≠ "false") :
    toBool? (.string text) = (readDouble? text).map fun double => !double.isZero := by
  unfold toBool?
  split
  next heq => cases heq
  next heq => exact absurd (Property.string.inj heq) h
  next heq => exact absurd (Property.string.inj heq) h'
  next heq =>
    cases heq
    rfl
  next hstring => exact absurd rfl (hstring text)

/-- The names of the truth values are no numerals. -/
theorem readDouble?_bool (b : Bool) : readDouble? (if b then "true" else "false") = none := by
  cases b <;> rfl

theorem toBool?_text (h : value.integer? = some n) : value.toBool? = toBool? (.string (Decimal.ofInt n)) := by
  obtain ⟨hmin, hmax⟩ := range_of_integer h
  have hread := readDouble?_ofInt hmin hmax
  have hname (b : Bool) : Decimal.ofInt n ≠ if b then "true" else "false" := by
    intro heq
    rw [heq, readDouble?_bool] at hread
    cases hread
  rw [toBool?_of_isNumeric (isNumeric_of_integer h), double?_of_integer h, toBool?_string (hname true) (hname false),
    hread]

/-- Where the text is within bounds, it loses nothing to the narrower width. -/
theorem toNarrow?_text {α : Type} {lo hi : Int} (narrow : Int64 → α) (h : value.integer? = some n)
    (hfits : lo ≤ n ∧ n ≤ hi) : value.toNarrow? lo hi narrow = toNarrow? lo hi narrow (.string (Decimal.ofInt n)) := by
  obtain ⟨hmin, hmax⟩ := range_of_integer h
  have hwide : (Int64.ofInt n).toInt = n := Int64.toInt_ofInt_of_le hmin (Int.lt_add_one_of_le hmax)
  have htext : toNarrow? lo hi narrow (.string (Decimal.ofInt n)) = some (narrow (.ofInt n)) := by
    simp [toNarrow?, readInt64?_ofInt hmin hmax, hwide, hfits]
  rw [toNarrow?_of_isNumeric lo hi narrow (isNumeric_of_integer h), int64?_of_integer h, htext, Option.map_some]

end Property

namespace Kind

/-- The integers in the range of a kind. The kinds that are not narrow integers set no bounds. -/
def Fits (n : Int) : Kind → Prop
  | .byte => Int8.minValue.toInt ≤ n ∧ n ≤ Int8.maxValue.toInt
  | .short => Int16.minValue.toInt ≤ n ∧ n ≤ Int16.maxValue.toInt
  | .int => Int32.minValue.toInt ≤ n ∧ n ≤ Int32.maxValue.toInt
  | _ => True

/-- The kinds of truth values, numbers and texts. The others look a name up or take no scalar. -/
def isPlain : Kind → Bool
  | .type | .enum _ | .view _ => false
  | _ => true

variable {value value' : Property} {n : Int}

theorem convert?_text {kind : Kind} (h : value.integer? = some n) (hfits : kind.Fits n) :
    kind.convert? value = kind.convert? (.string (Decimal.ofInt n)) := by
  cases kind with
  | boolean => rw [convert?, convert?, Property.toBool?_text h]
  | byte | short | int => rw [convert?, convert?, Property.toNarrow?_text _ h hfits]
  | long => rw [convert?, convert?, Property.toInt64?_text h]
  | float | double => rw [convert?, convert?, Property.toDouble?_text h]
  | string => rw [convert?, convert?, Property.text_of_integer h, Property.text]
  | type | enum | view => rfl

theorem isSome_convert? {kind : Kind} (h : value.integer? = some n) (hplain : kind.isPlain = true) :
    (kind.convert? value).isSome = true := by
  have hnumeric := Property.isNumeric_of_integer h
  cases kind with
  | boolean =>
    rw [convert?, Property.toBool?_of_isNumeric hnumeric, Property.double?_of_integer h]
    rfl
  | byte | short | int =>
    rw [convert?, Property.toNarrow?_of_isNumeric _ _ _ hnumeric, Property.int64?_of_integer h]
    rfl
  | long =>
    rw [convert?, Property.toInt64?_of_isNumeric hnumeric, Property.int64?_of_integer h]
    rfl
  | float | double =>
    rw [convert?, Property.toDouble?_of_isNumeric hnumeric, Property.double?_of_integer h]
    rfl
  | string => rfl
  | type | enum | view => cases hplain

theorem convert?_bool (kind : Kind) (b : Bool) :
    kind.convert? (.bool b) = kind.convert? (.string (if b then "true" else "false")) := by
  cases kind <;> cases b <;> rfl

/-- Two scalars with the same text and the same conversions are coerced alike; only the error of an
incompatible one names its type. -/
theorem coerceScalar_congr (resolver : TypeResolver) {kind : Kind} (htext : value.text = value'.text)
    (hconvert : kind.convert? value = kind.convert? value') :
    (kind.coerceScalar resolver value).toOption = (kind.coerceScalar resolver value').toOption := by
  cases kind with
  | type | enum => rw [coerceScalar, coerceScalar, htext]
  | _ =>
    simp only [coerceScalar, hconvert]
    split <;> rfl

theorem isSome_coerceScalar (resolver : TypeResolver) {kind : Kind} (h : (kind.convert? value).isSome = true) :
    (kind.coerceScalar resolver value).toOption.isSome = true := by
  cases kind with
  | type | enum => cases h
  | _ =>
    obtain ⟨coerced, hcoerced⟩ := Option.isSome_iff_exists.mp h
    simp only [coerceScalar, hcoerced]
    rfl

/-- A plain kind takes just the scalars that it converts. -/
theorem coerceScalar_eq_ok_iff (resolver : TypeResolver) {kind : Kind} (h : kind.isPlain = true) {result : ViewValue} :
    kind.coerceScalar resolver value = .ok result ↔ kind.convert? value = some result := by
  cases kind with
  | type | enum | view => cases h
  | _ =>
    unfold coerceScalar
    dsimp only
    split <;> rename_i hconvert <;> simp [hconvert]

theorem coerce_text_eq_ok_iff (resolver : TypeResolver) {kind : Kind} (h : kind.isPlain = true) {text : String}
    {result : ViewValue} :
    kind.coerce resolver (.string text) = .ok result ↔ kind.convert? (.string text) = some result :=
  coerceScalar_eq_ok_iff resolver h

theorem coerce_of_integer (resolver : TypeResolver) (kind : Kind) (h : value.integer? = some n) :
    kind.coerce resolver value = kind.coerceScalar resolver value := by
  cases value with
  | array | map => cases h
  | _ => rfl

/-- The text of an integer gives a kind with room for the integer the same value as the integer itself, in
whichever width it is held, or fails with it; above two to the 53rd both are rounded alike. Both fail only where the
kind looks a name up or takes no scalar. The name of a truth value agrees with the truth value for any kind. -/
theorem coerce_text_agrees (resolver : TypeResolver) (kind : Kind) :
    (∀ (value : Property) (n : Int), value.integer? = some n → kind.Fits n →
      (kind.coerce resolver value).toOption = (kind.coerce resolver (.string (Decimal.ofInt n))).toOption ∧
      (kind.isPlain = true → (kind.coerce resolver value).toOption.isSome = true)) ∧
    ∀ b : Bool, (kind.coerce resolver (.bool b)).toOption =
      (kind.coerce resolver (.string (if b then "true" else "false"))).toOption := by
  constructor
  · intro value n h hfits
    rw [coerce_of_integer resolver kind h]
    exact ⟨coerceScalar_congr resolver (Property.text_of_integer h) (convert?_text h hfits),
      fun hplain => isSome_coerceScalar resolver (isSome_convert? h hplain)⟩
  · intro b
    exact coerceScalar_congr resolver rfl (kind.convert?_bool b)

/-- The first integer that no double holds goes to the even neighbour from both forms, and the least integer of a
byte fits from both. -/
theorem coerce_text_agrees_at_bounds :
    (Property.long 9007199254740993).integer? = some 9007199254740993 ∧ Kind.double.Fits 9007199254740993 ∧
    Decimal.ofInt 9007199254740993 = "9007199254740993" ∧
    (Kind.double.coerce (.known []) (.long 9007199254740993)).toOption =
      some (.double (.ofInt 9007199254740992)) ∧
    (Kind.double.coerce (.known []) (.string "9007199254740993")).toOption =
      some (.double (.ofInt 9007199254740992)) ∧
    (Property.short (-128)).integer? = some (-128) ∧ Kind.byte.Fits (-128) ∧ Decimal.ofInt (-128) = "-128" ∧
    (Kind.byte.coerce (.known []) (.short (-128))).toOption = some (.byte (-128)) ∧
    (Kind.byte.coerce (.known []) (.string "-128")).toOption = some (.byte (-128)) := by
  have hfits : Kind.byte.Fits (-128) := ⟨by decide, by decide⟩
  have hwide := ((coerce_text_agrees (.known []) .double).1 (.long 9007199254740993) 9007199254740993 rfl trivial).1
  have hnarrow := ((coerce_text_agrees (.known []) .byte).1 (.short (-128)) (-128) rfl hfits).1
  have htext : Decimal.ofInt 9007199254740993 = "9007199254740993" := by decide
  have htext' : Decimal.ofInt (-128) = "-128" := by decide
  rw [htext] at hwide
  rw [htext'] at hnarrow
  have hdouble : (Binary.ofInt 9007199254740993 : Binary64) = .ofInt 9007199254740992 := by decide +kernel
  have hnumber : (Kind.double.coerce (.known []) (.long 9007199254740993)).toOption =
      some (.double (.ofInt 9007199254740992)) := by rw [← hdouble]; rfl
  have hnumber' : (Kind.byte.coerce (.known []) (.short (-128))).toOption = some (.byte (-128)) := rfl
  exact ⟨rfl, trivial, htext, hnumber, hwide ▸ hnumber, rfl, hfits, htext', hnumber', hnarrow ▸ hnumber'⟩

end Kind
end ComponentBinding
