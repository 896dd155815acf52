import ComponentBinding.Host
import ComponentBinding.Json.Fields
import ComponentBinding.Property.Json

/-! Records of registered services, and of the services bound to a reference. -/
namespace ComponentBinding

/-- A registered service. -/
structure ServiceRecord where
  id : UInt64
  bundle : UInt64
  properties : Properties
  usingBundles : List UInt64 := []

namespace ServiceRecord

/-- A service reference that a bundle has registered and nothing uses yet. -/
def ofReference (reference : ServiceReference) (bundle : UInt64) : ServiceRecord where
  id := reference.id
  bundle := bundle
  properties := reference.properties

/-- The fields in order. -/
def fieldNames : List String := ["id", "bundle", "properties", "usingBundles"]

def idJson (id : UInt64) : Json := .int id.toNat

def toJson (record : ServiceRecord) : Json :=
  .object [("id", idJson record.id), ("bundle", idJson record.bundle),
    ("properties", .object (Property.entriesToJson record.properties)),
    ("usingBundles", .array (record.usingBundles.map idJson))]

def ofJson? (json : Json) : Option ServiceRecord := do
  let fields ← json.recordFields? fieldNames
  return {
    id := ← Json.required? fields "id" Json.uint64?
    bundle := ← Json.required? fields "bundle" Json.uint64?
    properties := ← Json.required? fields "properties" Property.propertiesOfJson?
    usingBundles := ← Json.defaulted? fields "usingBundles" (Json.list? Json.uint64?) [] }

end ServiceRecord

/-- The services bound to a reference. -/
structure BoundRecord where
  name : String
  target? : Option String := none
  services : List ServiceRecord := []

namespace BoundRecord

/-- The fields in order. -/
def fieldNames : List String := ["name", "target", "serviceReferences"]

/-- A target without a value is left out. -/
def toJson (record : BoundRecord) : Json :=
  .object ([("name", .string record.name)] ++
    (record.target?.map fun target => ("target", Json.string target)).toList ++
    [("serviceReferences", .array (record.services.map ServiceRecord.toJson))])

def ofJson? (json : Json) : Option BoundRecord := do
  let fields ← json.recordFields? fieldNames
  return {
    name := ← Json.required? fields "name" Json.string?
    target? := ← Json.optional? fields "target" Json.string?
    services := ← Json.defaulted? fields "serviceReferences" (Json.list? ServiceRecord.ofJson?) [] }

end BoundRecord
end ComponentBinding
