import ComponentBinding.Callback.Shape
import ComponentBinding.Json.Fields

/-! The record of a reference that a component description declares. -/
namespace ComponentBinding

structure ReferenceRecord where
  name : String
  interfaceName : String
  cardinality : String
  policy : String
  policyOption : String
  target? : Option String := none
  bind? : Option String := none
  unbind? : Option String := none
  updated? : Option String := none
  scope : String
  deriving DecidableEq, Repr

namespace ReferenceRecord

/-- The declared callback name for a change. -/
def callbackName? (record : ReferenceRecord) : ReferenceChange → Option String
  | .bind => record.bind?
  | .unbind => record.unbind?
  | .updated => record.updated?

/-- The shape of the callbacks for a change. -/
def shape (record : ReferenceRecord) (change : ReferenceChange) : ReferenceShape :=
  ⟨change, record.interfaceName⟩

/-- The fields in order. -/
def fieldNames : List String :=
  ["name", "interfaceName", "cardinality", "policy", "policyOption", "target", "bind", "unbind",
    "updated", "scope"]

/-- A field without a value is left out. -/
def toJson (record : ReferenceRecord) : Json :=
  let optional (name : String) (value? : Option String) : List (String × Json) :=
    (value?.map fun value => (name, Json.string value)).toList
  .object ([("name", .string record.name), ("interfaceName", .string record.interfaceName),
      ("cardinality", .string record.cardinality), ("policy", .string record.policy),
      ("policyOption", .string record.policyOption)] ++
    optional "target" record.target? ++ optional "bind" record.bind? ++
    optional "unbind" record.unbind? ++ optional "updated" record.updated? ++
    [("scope", .string record.scope)])

def ofJson? (json : Json) : Option ReferenceRecord := do
  let fields ← json.recordFields? fieldNames
  return {
    name := ← Json.required? fields "name" Json.string?
    interfaceName := ← Json.required? fields "interfaceName" Json.string?
    cardinality := ← Json.required? fields "cardinality" Json.string?
    policy := ← Json.required? fields "policy" Json.string?
    policyOption := ← Json.required? fields "policyOption" Json.string?
    target? := ← Json.optional? fields "target" Json.string?
    bind? := ← Json.optional? fields "bind" Json.string?
    unbind? := ← Json.optional? fields "unbind" Json.string?
    updated? := ← Json.optional? fields "updated" Json.string?
    scope := ← Json.required? fields "scope" Json.string? }

end ReferenceRecord
end ComponentBinding
