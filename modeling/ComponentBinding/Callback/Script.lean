import ComponentBinding.Callback.Invocation

/-! Scripted method bodies over instances that may hold a counter. -/
namespace ComponentBinding

/-- The state of a scripted instance. -/
abbrev Counter := Option Int64

inductive Script where
  | void
  | return (properties : Properties)
  | echo
  | count
  | fail (error : BodyError)
  | panic (payload : PanicPayload)

namespace Script

/-- The properties of the first property map or component context. -/
def firstProperties? : List Argument → Option Properties
  | [] => none
  | .properties properties :: _ => some properties
  | .componentContext context :: _ => some context.properties
  | _ :: arguments => firstProperties? arguments

/-- How a script ends on an instance, and the counter that it leaves. -/
def run : Script → Instance Counter → List Argument → BodyOutcome × Counter
  | .void, target, _ => (.returned none, target.state)
  | .return properties, target, _ => (.returned (some properties), target.state)
  | .echo, target, arguments =>
    (.returned ((firstProperties? arguments).map fun properties =>
      properties.insert "touched" (.bool true)), target.state)
  | .count, target, _ =>
    match target.state with
    | some calls => (.returned (some [("count", .long (calls + 1))]), some (calls + 1))
    | none => (.failed (.typeMismatch "Counter" "unknown"), none)
  | .fail error, target, _ => (.failed error, target.state)
  | .panic payload, target, _ => (.panicked payload, target.state)

/-- A script leaves the service objects as they are. -/
def body (script : Script) : Body Counter := fun target arguments services =>
  let (outcome, state) := script.run target arguments
  (outcome, state, services)

end Script
end ComponentBinding
