import ComponentBinding.Json.Basic
import ComponentBinding.Property.Basic

/-! Configuration values as JSON. A document keeps neither the width of a number nor a number that
is not finite, so reading gives the widest form of each number and refuses null. -/
namespace ComponentBinding.Property

def floatJson (x : Binary64) : Json := (Json.ofFloat? x).getD .null

/-- An integer within 64 bits is a long; any other is the nearest double. -/
def ofJsonInt (value : Int) : Property :=
  if Int64.minValue.toInt ≤ value && value ≤ Int64.maxValue.toInt then .long (.ofInt value)
  else .double (.ofInt value)

mutual

def toJson : Property → Json
  | .bool value => .bool value
  | .long value => .int value.toInt
  | .double value => floatJson value
  | .string value => .string value
  | .array items => .array (itemsToJson items)
  | .map entries => .object (entriesToJson entries)
  | .byte value => .int value.toInt
  | .short value => .int value.toInt
  | .int value => .int value.toInt
  | .float value => floatJson value.convert

def itemsToJson : List Property → List Json
  | [] => []
  | item :: items => item.toJson :: itemsToJson items

def entriesToJson : List (String × Property) → List (String × Json)
  | [] => []
  | (key, value) :: entries => (key, value.toJson) :: entriesToJson entries

end

mutual

/-- The value of a document without a null. -/
def ofJson? : Json → Option Property
  | .null => none
  | .bool value => some (.bool value)
  | .int value => some (ofJsonInt value)
  | .float value => some (.double value.val)
  | .string value => some (.string value)
  | .array items => (itemsOfJson? items).map .array
  | .object fields => (entriesOfJson? fields).map fun entries => .map (Properties.ofList entries)

def itemsOfJson? : List Json → Option (List Property)
  | [] => some []
  | item :: items => do return (← ofJson? item) :: (← itemsOfJson? items)

def entriesOfJson? : List (String × Json) → Option (List (String × Property))
  | [] => some []
  | (key, value) :: fields => do return (key, ← ofJson? value) :: (← entriesOfJson? fields)

end

/-! A document does not say which form its value has: the forms are tried in the order in which they
are declared, and the first that holds it is taken. -/

/-- A form that holds the integers within its bounds. -/
def integerForm (lo hi : Int) (form : Int → Property) : Json → Option Property
  | .int value => if lo ≤ value && value ≤ hi then some (form value) else none
  | _ => none

/-- A form that holds every number, an integer as the nearest datum. -/
def floatForm (ofInt : Int → Property) (ofFloat : Binary64 → Property) : Json → Option Property
  | .int value => some (ofInt value)
  | .float value => some (ofFloat value.val)
  | _ => none

def forms : List (Json → Option Property) :=
  [fun | .bool value => some (.bool value) | _ => none,
    integerForm Int64.minValue.toInt Int64.maxValue.toInt fun value => .long (.ofInt value),
    floatForm (fun value => .double (.ofInt value)) .double,
    fun | .string value => some (.string value) | _ => none,
    fun | .array items => (itemsOfJson? items).map .array | _ => none,
    fun
      | .object fields => (entriesOfJson? fields).map fun entries => .map (Properties.ofList entries)
      | _ => none,
    integerForm Int8.minValue.toInt Int8.maxValue.toInt fun value => .byte (.ofInt value),
    integerForm Int16.minValue.toInt Int16.maxValue.toInt fun value => .short (.ofInt value),
    integerForm Int32.minValue.toInt Int32.maxValue.toInt fun value => .int (.ofInt value),
    floatForm (fun value => .float (.ofInt value)) fun value => .float value.convert]

/-- The long and the double come before the narrow forms and hold every number between them, so no
narrow form is taken. -/
theorem ofJson?_eq_findSome? (json : Json) : ofJson? json = forms.findSome? fun form => form json := by
  cases json with
  | null => rfl
  | bool value => rfl
  | int value =>
    rw [ofJson?, ofJsonInt]
    by_cases hlong : (Int64.minValue.toInt ≤ value && value ≤ Int64.maxValue.toInt) = true
    · simp only [forms, List.findSome?, integerForm, if_pos hlong]
    · simp only [forms, List.findSome?, integerForm, floatForm, if_neg hlong]
  | float value => rfl
  | string value => rfl
  | array items =>
    rw [ofJson?]
    simp only [forms, List.findSome?, integerForm, floatForm]
    cases itemsOfJson? items <;> rfl
  | object fields =>
    rw [ofJson?]
    simp only [forms, List.findSome?, integerForm, floatForm]
    cases entriesOfJson? fields <;> rfl

/-- The entries of a document that is an object without a null. -/
def propertiesOfJson? : Json → Option Properties
  | .object fields => (entriesOfJson? fields).map Properties.ofList
  | _ => none

end ComponentBinding.Property
