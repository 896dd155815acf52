import ComponentBinding.Callback.Error
import ComponentBinding.Host
import ComponentBinding.View.Basic

/-! Methods of component classes: what a class declares, and the body that a call runs. -/
namespace ComponentBinding

inductive Visibility where
  | everywhere
  | subclasses
  /-- within the package and the loader of the class -/
  | package
  | ownClass
  deriving DecidableEq, Repr

/-- The type of a parameter. -/
inductive Parameter where
  | componentContext | bundleContext | propertyMap | serviceReference | int
  | service (interface : String)
  | view (schema : String)
  deriving DecidableEq, Repr

abbrev Signature := List Parameter

def Parameter.text : Parameter → String
  | .componentContext => "ComponentContext"
  | .bundleContext => "BundleContext"
  | .propertyMap => "Map"
  | .serviceReference => "ServiceReference"
  | .int => "int"
  | .service interface => interface
  | .view schema => schema

inductive Returns where
  | nothing
  | propertyMap
  | other (typeName : String)
  deriving DecidableEq, Repr

/-- The declared part of a method. -/
structure Declaration where
  name : String
  parameters : Signature := []
  returns : Returns := .nothing
  visibility : Visibility := .everywhere
  isStatic : Bool := false
  deriving DecidableEq, Repr

inductive Argument where
  | componentContext (context : ComponentContext)
  | bundleContext (bundle : BundleContext)
  | properties (properties : Properties)
  | serviceReference (reference : ServiceReference)
  | service (service : ServiceObject)
  | int (value : Int32)
  | view (view : View)

/-- A component instance: its class, and a state that only method bodies look into. -/
structure Instance (σ : Type) where
  classId : Nat
  state : σ

/-- The states of the service objects by their identity, for those that have one. -/
abbrev ServiceStates (σ : Type) := Nat → Option σ

/-- How a body ends. -/
inductive BodyOutcome where
  | returned (properties? : Option Properties)
  | failed (error : BodyError)
  | panicked (payload : PanicPayload)

/-- A body sees the instance, the arguments and the states of the service objects, and may change the states of
the instance and of any service object: it may hold handles besides those among its arguments. -/
abbrev Body (σ : Type) := Instance σ → List Argument → ServiceStates σ → BodyOutcome × σ × ServiceStates σ

structure Method (σ : Type) extends Declaration where
  body : Body σ

/-- Which methods may be called: besides those visible to subclasses, perhaps those of the own
class, of the package, or with a property map as result. -/
structure Acceptance where
  ownClass : Bool := false
  package : Bool := false
  propertyMap : Bool := false
  deriving DecidableEq, Repr

/-- A static method, or one with any other result, is never called. -/
def Acceptance.accepts (rule : Acceptance) (method : Declaration) : Bool :=
  (match method.returns with
    | .nothing => true
    | .propertyMap => rule.propertyMap
    | .other _ => false) &&
  !method.isStatic &&
  (match method.visibility with
    | .everywhere | .subclasses => true
    | .ownClass => rule.ownClass
    | .package => rule.package)

end ComponentBinding
