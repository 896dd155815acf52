import ComponentBinding.Panic
import ComponentBinding.Text.Start

/-! Resolution of type names. The host decides name by name; a resolver may also panic. -/
namespace ComponentBinding

/-- A resolved type, known by its full name. -/
structure TypeHandle where
  name : String
  deriving DecidableEq, Repr

inductive ResolveError where
  | notFound (name : String)
  | loadFailed (name reason : String)
  deriving DecidableEq, Repr

def ResolveError.message : ResolveError → String
  | .notFound name => "type not found: " ++ name
  | .loadFailed name reason => "failed to load type " ++ name ++ ": " ++ reason

inductive ResolverAnswer where
  | resolved (handle : TypeHandle)
  | failed (error : ResolveError)
  | panicked (payload : PanicPayload)
  deriving DecidableEq, Repr

abbrev TypeResolver := String → ResolverAnswer

namespace TypeResolver

/-- Resolves the listed names to types of the same name. -/
def known (names : List String) : TypeResolver := fun name =>
  if name ∈ names then .resolved ⟨name⟩ else .failed (.notFound name)

/-- Resolves the names that begin with `start` to the type named by the rest. -/
def startingWith (start : String) : TypeResolver := fun name =>
  match Text.after? start name with
  | some rest => .resolved ⟨rest⟩
  | none => .failed (.notFound name)

def loadFailing (reason : String) : TypeResolver := fun name => .failed (.loadFailed name reason)

def panicking (payload : PanicPayload) : TypeResolver := fun _ => .panicked payload

end TypeResolver

/-- A growing set of names, each of which resolves to the type of that name. -/
structure TypeRegistry where
  names : List String := []

namespace TypeRegistry

def register (types : TypeRegistry) (name : String) : TypeRegistry := ⟨name :: types.names⟩
def contains (types : TypeRegistry) (name : String) : Bool := types.names.contains name
def resolver (types : TypeRegistry) : TypeResolver := .known types.names

end TypeRegistry
end ComponentBinding
