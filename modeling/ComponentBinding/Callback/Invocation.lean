import ComponentBinding.Class.Method

/-! Invocation of a method body on an instance. -/
namespace ComponentBinding

/-- What a callback gives back. The flag says that the method is declared to return something. -/
structure MethodResult where
  hasPropertyUpdate : Bool := false
  properties? : Option Properties := none

/-- Nothing returned. -/
def MethodResult.void : MethodResult := {}

def BodyOutcome.properties : BodyOutcome → Except BodyError (Option Properties)
  | .returned properties? => .ok properties?
  | .failed error => .error error
  | .panicked payload => .error (.panicked payload.message)

namespace Method

variable {σ : Type}

/-- The result of a call, and the states that the body leaves the instance and the service objects in. -/
def invoke (method : Method σ) (target : Instance σ) (arguments : List Argument)
    (services : ServiceStates σ := fun _ => none) : Except BindingError MethodResult × σ × ServiceStates σ :=
  let (outcome, states) := method.body target arguments services
  (match outcome.properties with
    | .ok properties? => .ok ⟨method.returns ≠ .nothing, properties?⟩
    | .error source => .error (.inBodyFailure method.name source), states)

end Method
end ComponentBinding
