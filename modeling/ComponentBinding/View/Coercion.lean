import ComponentBinding.Property.Text
import ComponentBinding.Text.Blank
import ComponentBinding.View.Error
import ComponentBinding.View.Schema

/-! Coercion of one configuration value to the kind of a member. Text is read as a number where a
number is wanted; numbers of any width are converted. Sequences, maps and views are not coerced. -/
namespace ComponentBinding
namespace Property

/-- The double that a text denotes; a text that is no number or too large for one denotes none. -/
def readDouble? (text : String) : Option Binary64 :=
  ((Decimal.read? (Text.trim text.toList)).map Decimal.toBinary).filter Binary.isFinite

/-- The 64-bit integer that a text denotes; a fraction is dropped. Text that is no such integer is
read as a double, which must lie in the range. -/
def readInt64? (text : String) : Option Int64 :=
  match (Decimal.readInt? (Text.trim text.toList)).filter fun value =>
      Int64.minValue.toInt ≤ value && value ≤ Int64.maxValue.toInt with
  | some value => some (.ofInt value)
  | none =>
    ((readDouble? text).filter (Binary.inRange Int64.minValue.toInt (Int64.maxValue.toInt + 1))).map fun value =>
      .ofInt (value.truncate Int64.minValue.toInt Int64.maxValue.toInt)

/-- Two texts name truth values; a number is true unless it is zero. -/
def toBool? : Property → Option Bool
  | .bool value => some value
  | .string "true" => some true
  | .string "false" => some false
  | .string text => (readDouble? text).map fun value => !value.isZero
  | value => value.double?.map fun value => !value.isZero

def toInt64? : Property → Option Int64
  | .string text => readInt64? text
  | value => value.int64?

/-- An integer of a narrower width. Text must fit the bounds; a number keeps its low bits. -/
def toNarrow? {α : Type} (lo hi : Int) (narrow : Int64 → α) : Property → Option α
  | .string text =>
    ((readInt64? text).filter fun value => lo ≤ value.toInt && value.toInt ≤ hi).map narrow
  | value => value.int64?.map narrow

def toDouble? : Property → Option Binary64
  | .string text => readDouble? text
  | value => value.double?

end Property

namespace Kind

def incompatible (kind : Kind) (value : Property) : CoercionError :=
  .incompatible kind.name value.typeName value.text

/-- The type that the resolver finds for a name. A panic of the resolver is an error like others. -/
def resolveType (resolver : TypeResolver) (name : String) : Except CoercionError ViewValue :=
  match resolver name with
  | .resolved handle => .ok (.type handle)
  | .failed error => .error (.unresolved error)
  | .panicked payload => .error (.resolverPanicked name payload.message)

/-- The constant of a symbol, which must be spelled exactly. -/
def enumConstant (enumeration : Enumeration) (symbol : String) : Except CoercionError ViewValue :=
  match enumeration.ordinal? symbol with
  | some ordinal => .ok (.enum ⟨enumeration.name, symbol, ordinal⟩)
  | none => .error (.unknownSymbol enumeration.name symbol)

/-- The value of a scalar as a truth value, a number or a text; the other kinds have none here. -/
def convert? (value : Property) : Kind → Option ViewValue
  | .boolean => value.toBool?.map .bool
  | .byte =>
    (value.toNarrow? Int8.minValue.toInt Int8.maxValue.toInt Int64.toInt8).map .byte
  | .short =>
    (value.toNarrow? Int16.minValue.toInt Int16.maxValue.toInt Int64.toInt16).map .short
  | .int =>
    (value.toNarrow? Int32.minValue.toInt Int32.maxValue.toInt Int64.toInt32).map .int
  | .long => value.toInt64?.map .long
  | .float => value.toDouble?.map fun value => .float value.convert
  | .double => value.toDouble?.map .double
  | .string => some (.string value.text)
  | _ => none

/-- Coercion of a scalar. -/
def coerceScalar (resolver : TypeResolver) (kind : Kind) (value : Property) :
    Except CoercionError ViewValue :=
  match kind with
  | .type => resolveType resolver value.text
  | .enum enumeration => enumConstant enumeration value.text
  | kind =>
    match convert? value kind with
    | some coerced => .ok coerced
    | none => .error (kind.incompatible value)

/-- Coercion of any value; sequences and maps have no form in any kind. -/
def coerce (resolver : TypeResolver) (kind : Kind) (value : Property) :
    Except CoercionError ViewValue :=
  match value with
  | .array _ | .map _ => .error (kind.incompatible value)
  | value => coerceScalar resolver kind value

end Kind
end ComponentBinding
