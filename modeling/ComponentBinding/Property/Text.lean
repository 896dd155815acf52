import ComponentBinding.Number.Shortest
import ComponentBinding.Property.Basic

/-! The text of a configuration value. A string stands for itself, without quotes. -/
namespace ComponentBinding.Property

mutual

def text : Property → String
  | .bool value => if value then "true" else "false"
  | .long value => Decimal.ofInt value.toInt
  | .double value => value.text
  | .string value => value
  | .array items => "[" ++ String.intercalate ", " (itemTexts items) ++ "]"
  | .map entries => "\x7b" ++ String.intercalate ", " (entryTexts entries) ++ "\x7d"
  | .byte value => Decimal.ofInt value.toInt
  | .short value => Decimal.ofInt value.toInt
  | .int value => Decimal.ofInt value.toInt
  | .float value => value.text

def itemTexts : List Property → List String
  | [] => []
  | item :: items => item.text :: itemTexts items

def entryTexts : List (String × Property) → List String
  | [] => []
  | (key, value) :: entries => (key ++ "=" ++ value.text) :: entryTexts entries

end

end ComponentBinding.Property
