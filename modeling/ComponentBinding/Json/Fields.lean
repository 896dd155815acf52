import ComponentBinding.Json.Basic

/-! Records in JSON: objects with the fields by name, or arrays with the fields in order. -/
namespace ComponentBinding.Json

/-- The fields of a record. An array may end early, but has no item beyond the last field. -/
def recordFields? (names : List String) : Json → Option (List (String × Json))
  | .object fields => some fields
  | .array items => if items.length ≤ names.length then some (names.zip items) else none
  | _ => none

def string? : Json → Option String
  | .string value => some value
  | _ => none

/-- An integer of 64 bits without a sign. -/
def uint64? : Json → Option UInt64
  | .int value => if 0 ≤ value && value < UInt64.size then some (.ofNat value.toNat) else none
  | _ => none

def list? {α : Type} (item? : Json → Option α) : Json → Option (List α)
  | .array items => items.mapM item?
  | _ => none

variable {α : Type} (fields : List (String × Json)) (name : String) (value? : Json → Option α)

def required? : Option α := (fields.lookup name).bind value?

/-- A field that may be missing or null; what is there must be right. -/
def optional? : Option (Option α) :=
  match fields.lookup name with
  | none | some .null => some none
  | some value => (value? value).map some

/-- A field that may be missing, but not null. -/
def defaulted? (default : α) : Option α :=
  match fields.lookup name with
  | none => some default
  | some value => value? value

end ComponentBinding.Json
