import ComponentBinding.Property.Basic

/-! What the host hands in: bundles, component contexts, service references and service objects. -/
namespace ComponentBinding

/-- The bundle that declares a component. -/
structure BundleContext where
  id : UInt64
  symbolicName : String
  deriving DecidableEq, Repr

/-- The context of one activation. -/
structure ComponentContext where
  name : String
  properties : Properties
  bundle : BundleContext

structure ServiceReference where
  id : UInt64
  properties : Properties

/-- What a service object is made of. A text and an integer stay as they are and can be read off it; into an
object of another type only method bodies look. -/
inductive ServiceContent where
  | text (value : String)
  | int (value : Int64)
  | other
  deriving DecidableEq, Repr

/-- A handle to a service object; handles with one identity share one object, and see what it holds change. -/
structure ServiceObject where
  identity : Nat
  content : ServiceContent
  deriving DecidableEq, Repr

namespace ServiceObject

def text? (service : ServiceObject) : Option String :=
  match service.content with
  | .text value => some value
  | _ => none

def int? (service : ServiceObject) : Option Int64 :=
  match service.content with
  | .int value => some value
  | _ => none

def sameObject (a b : ServiceObject) : Bool := a.identity == b.identity

end ServiceObject

/-- The service handles that a host has given out, in order. -/
structure ServiceTable where
  handles : List ServiceObject := []

namespace ServiceTable

/-- A new object takes the place of its first handle as its identity, which no other object has. -/
def create (table : ServiceTable) (content : ServiceContent) : ServiceTable :=
  ⟨table.handles ++ [⟨table.handles.length, content⟩]⟩

/-- One more handle to the same object. -/
def share (table : ServiceTable) (service : ServiceObject) : ServiceTable :=
  ⟨table.handles ++ [service]⟩

end ServiceTable
end ComponentBinding
