import ComponentBinding.Callback.Category
import ComponentBinding.Callback.Selection
import ComponentBinding.Class.Method
import ComponentBinding.View.Materialize

/-! Shapes of callbacks: the signatures that a category accepts, best first, and the arguments that a
call supplies for a signature. -/
namespace ComponentBinding

/-- Arguments in order; the first that cannot be supplied is reported. -/
def supplyAll (supply : Parameter → Logged (Except ArgumentError Argument)) :
    Signature → Logged (Except ArgumentError (List Argument))
  | [] => pure (.ok [])
  | parameter :: parameters => do
    match ← supply parameter with
    | .error error => return .error error
    | .ok argument => return (← supplyAll supply parameters).map (argument :: ·)

/-- Callbacks on activation, deactivation and change of the configuration. -/
structure LifecycleShape where
  phase : LifecyclePhase
  views : List Schema := []
  materializer : Materializer := { resolver := .known [] }

/-- What a lifecycle call starts from. -/
structure LifecycleCall where
  context : ComponentContext
  reason : Int32 := 0

namespace LifecycleShape

/-- Every parameter that may stand with others. -/
def combinable (shape : LifecycleShape) : List Parameter :=
  [.componentContext, .bundleContext, .propertyMap] ++
    if shape.phase = .deactivate then [.int] else []

def candidates (shape : LifecycleShape) (gate : Gate) : List Signature :=
  [.componentContext] ::
    if gate.relaxedVisibility then
      [[.bundleContext], [.propertyMap]] ++
      shape.views.map (fun schema => [.view schema.name]) ++
      (if shape.phase = .deactivate then [[.int]] else []) ++
      selections shape.combinable ++ [[]]
    else []

/-- A view parameter takes the first schema of its name. -/
def supply (shape : LifecycleShape) (call : LifecycleCall) :
    Parameter → Logged (Except ArgumentError Argument)
  | .componentContext => pure (.ok (.componentContext call.context))
  | .bundleContext => pure (.ok (.bundleContext call.context.bundle))
  | .propertyMap => pure (.ok (.properties call.context.properties))
  | .int => pure (.ok (.int call.reason))
  | .view name =>
    match shape.views.find? (·.name = name) with
    | none => pure (.error (.unknownView name))
    | some schema => do
      return .ok (.view (← shape.materializer.materialize schema call.context.properties))
  | parameter => pure (.error (.unsupported parameter.text))

def arguments (shape : LifecycleShape) (parameters : Signature) (call : LifecycleCall) :
    Logged (Except ArgumentError (List Argument)) := supplyAll (shape.supply call) parameters

end LifecycleShape

/-- Callbacks on the binding of a service reference. -/
structure ReferenceShape where
  change : ReferenceChange
  interface : String
  deriving DecidableEq, Repr

/-- What a reference call starts from; the service object may be gone. -/
structure ReferenceCall where
  reference : ServiceReference
  service? : Option ServiceObject := none

namespace ReferenceShape

def candidates (shape : ReferenceShape) (gate : Gate) : List Signature :=
  [[.serviceReference], [.service shape.interface]] ++
    if gate.relaxedVisibility then [[.service shape.interface, .propertyMap]] else []

def supply (call : ReferenceCall) : Parameter → Except ArgumentError Argument
  | .serviceReference => .ok (.serviceReference call.reference)
  | .propertyMap => .ok (.properties call.reference.properties)
  | .service _ =>
    match call.service? with
    | some service => .ok (.service service)
    | none => .error (.serviceUnavailable call.reference.id)
  | parameter => .error (.unsupported parameter.text)

def arguments (parameters : Signature) (call : ReferenceCall) :
    Logged (Except ArgumentError (List Argument)) :=
  supplyAll (fun parameter => pure (supply call parameter)) parameters

end ReferenceShape

inductive Shape where
  | lifecycle (shape : LifecycleShape)
  | reference (shape : ReferenceShape)

inductive Call where
  | lifecycle (call : LifecycleCall)
  | reference (call : ReferenceCall)

namespace Shape

def category : Shape → String
  | .lifecycle shape => shape.phase.name
  | .reference shape => shape.change.name

def candidates : Shape → Gate → List Signature
  | .lifecycle shape, gate => shape.candidates gate
  | .reference shape, gate => shape.candidates gate

/-- A call of the other kind supplies no argument at all. -/
def arguments : Shape → Signature → Call → Logged (Except ArgumentError (List Argument))
  | .lifecycle shape, parameters, .lifecycle call => shape.arguments parameters call
  | .reference _, parameters, .reference call => ReferenceShape.arguments parameters call
  | _, parameters, _ =>
    supplyAll (fun parameter => pure (.error (.unsupported parameter.text))) parameters

end Shape
end ComponentBinding
