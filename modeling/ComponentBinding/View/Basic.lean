import ComponentBinding.Number.Shortest
import ComponentBinding.TypeResolver

/-! Views: immutable records of typed members in declaration order. -/
namespace ComponentBinding

/-- A symbol of an enumeration, with its place in the declaration. -/
structure EnumConstant where
  typeName : String
  symbol : String
  ordinal : Nat
  deriving DecidableEq, Repr

mutual

inductive ViewValue where
  | bool (value : Bool)
  | byte (value : Int8)
  | short (value : Int16)
  | int (value : Int32)
  | long (value : Int64)
  | float (value : Binary32)
  | double (value : Binary64)
  | string (value : String)
  | type (handle : TypeHandle)
  | enum (constant : EnumConstant)
  | view (view : View)
  | array (items : List ViewValue)
  /-- an array element without a value -/
  | null

/-- One slot per declared member; `none` marks a member that is absent. -/
structure View where
  schemaName : String
  members : List (String × Option ViewValue)

end

namespace ViewValue

def typeName : ViewValue → String
  | .bool _ => "boolean"
  | .byte _ => "byte"
  | .short _ => "short"
  | .int _ => "int"
  | .long _ => "long"
  | .float _ => "float"
  | .double _ => "double"
  | .string _ => "string"
  | .type _ => "type"
  | .enum _ => "enum"
  | .view _ => "view"
  | .array _ => "array"
  | .null => "null"

def bool? : ViewValue → Option Bool
  | .bool value => some value
  | _ => none

/-- An integer of any width, widened. -/
def int64? : ViewValue → Option Int64
  | .byte value => some value.toInt64
  | .short value => some value.toInt64
  | .int value => some value.toInt64
  | .long value => some value
  | _ => none

/-- A floating-point number of either width, widened. -/
def double? : ViewValue → Option Binary64
  | .float value => some value.convert
  | .double value => some value
  | _ => none

def string? : ViewValue → Option String
  | .string value => some value
  | _ => none

def type? : ViewValue → Option TypeHandle
  | .type handle => some handle
  | _ => none

def enum? : ViewValue → Option EnumConstant
  | .enum constant => some constant
  | _ => none

def view? : ViewValue → Option View
  | .view nested => some nested
  | _ => none

def items? : ViewValue → Option (List ViewValue)
  | .array items => some items
  | _ => none

def isNull : ViewValue → Bool
  | .null => true
  | _ => false

end ViewValue

/-! Text -/

mutual

def ViewValue.text : ViewValue → String
  | .bool value => if value then "true" else "false"
  | .byte value => Decimal.ofInt value.toInt
  | .short value => Decimal.ofInt value.toInt
  | .int value => Decimal.ofInt value.toInt
  | .long value => Decimal.ofInt value.toInt
  | .float value => value.text
  | .double value => value.text
  | .string value => value
  | .type handle => handle.name
  | .enum constant => constant.symbol
  | .view nested => nested.text
  | .array items => "[" ++ String.intercalate ", " (ViewValue.itemTexts items) ++ "]"
  | .null => "null"

/-- A view is written as its schema name and its members, absent ones marked. -/
def View.text : View → String
  | ⟨schemaName, members⟩ =>
    schemaName ++ "\x7b" ++ String.intercalate ", " (View.memberTexts members) ++ "\x7d"

def ViewValue.itemTexts : List ViewValue → List String
  | [] => []
  | item :: items => item.text :: ViewValue.itemTexts items

def View.memberTexts : List (String × Option ViewValue) → List String
  | [] => []
  | (name, some value) :: members => (name ++ "=" ++ value.text) :: View.memberTexts members
  | (name, none) :: members => (name ++ "=<absent>") :: View.memberTexts members

end

/-! Look-up -/

/-- An absent member is told apart from a name that the schema does not declare. -/
inductive Lookup where
  | value (value : ViewValue)
  | absent
  | unknown

def Lookup.value? : Lookup → Option ViewValue
  | .value found => some found
  | _ => none

def Lookup.isAbsent : Lookup → Bool
  | .absent => true
  | _ => false

namespace View

def lookup (view : View) (name : String) : Lookup :=
  match view.members.lookup name with
  | some (some value) => .value value
  | some none => .absent
  | none => .unknown

/-- The value of a member that has one. -/
def get? (view : View) (name : String) : Option ViewValue := (view.lookup name).value?

def hasMember (view : View) (name : String) : Bool := view.members.any (·.1 = name)

end View
end ComponentBinding
