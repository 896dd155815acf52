import ComponentBinding.Number.Binary

/-! JSON documents. Integers are kept apart from numbers with a fraction or an exponent, and a number
is always finite; `Json.ofInt?` makes an integer of 64 bits only. The fields of an object are listed
in the order of the text. -/
namespace ComponentBinding

/-- A datum that JSON can hold. -/
abbrev FiniteBinary64 := { x : Binary64 // x.isFinite = true }

inductive Json where
  | null
  | bool (value : Bool)
  | int (value : Int)
  | float (value : FiniteBinary64)
  | string (value : String)
  | array (items : List Json)
  | object (fields : List (String × Json))
  deriving Inhabited

namespace Json

/-- The number of a floating-point datum, and nothing for one that JSON cannot hold. -/
def ofFloat? (x : Binary64) : Option Json :=
  if h : x.isFinite = true then some (.float ⟨x, h⟩) else none

/-- The number of an integer. One that 64 bits hold neither with a sign nor without is the nearest
floating-point datum, if that is finite. -/
def ofInt? (value : Int) : Option Json :=
  if Int64.minValue.toInt ≤ value && value < UInt64.size then some (.int value)
  else ofFloat? (.ofInt value)

/-- The value of a key of an object. -/
def field? : Json → String → Option Json
  | .object fields, key => fields.lookup key
  | _, _ => none

end Json
end ComponentBinding
