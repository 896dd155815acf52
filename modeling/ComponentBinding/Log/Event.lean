import ComponentBinding.Class.Method
import ComponentBinding.Version
import ComponentBinding.View.Error

/-! Events that the engine reports while it works. -/
namespace ComponentBinding

inductive Level where
  | trace | debug | warn | error
  deriving DecidableEq, Repr

inductive Event where
  | materializing (view : String) (keys : Nat)
  | coercionFailed (member key : String) (error : CoercionError)
  | elementCoercionFailed (member key : String) (error : CoercionError)
  | nestedViewDropped (view : String) (error : CoercionError)
  | locating (method owner : String)
  | located (method owner : String) (parameters : Signature)
  | inaccessible (method owner leaf : String)
  | resolving (category method : String)
  | hierarchyUnavailable (method : String) (classId : Nat) (error : HierarchyError)
  | requiredMissing (category method owner : String)
  | optionalMissing (category method owner : String)
  | invoking (category method : String)
  | instanceUnavailable (method : String)
  | invocationSkipped (method : String) (error : BindingError)
  | callbackFailed (method owner : String) (error : BindingError)
  | configLoaded (version : Version) (nestedViews : Bool)
  deriving DecidableEq, Repr

namespace Event

def level : Event → Level
  | .materializing .. => .trace
  | .hierarchyUnavailable .. | .instanceUnavailable .. => .warn
  | .inaccessible .. | .requiredMissing .. | .callbackFailed .. => .error
  | _ => .debug

def message : Event → String
  | .materializing .. => "materializing view"
  | .coercionFailed .. => "coercion failed, falling back"
  | .elementCoercionFailed .. => "array element coercion failed"
  | .nestedViewDropped .. => "nested view dropped"
  | .locating .. => "locating method"
  | .located .. => "found method"
  | .inaccessible .. => "suitable but non-accessible method found"
  | .resolving .. => "resolving"
  | .hierarchyUnavailable .. => "method cannot be found"
  | .requiredMissing .. => "method not found; component will fail"
  | .optionalMissing .. => "method not found, ignoring"
  | .invoking .. => "invoking"
  | .instanceUnavailable .. => "method cannot be called on unavailable instance"
  | .invocationSkipped .. => "skipping invocation"
  | .callbackFailed .. => "callback failed"
  | .configLoaded .. => "loaded engine config"

/-- The details of an event that are texts, by name. The signature of a method that was found is none. -/
def fields : Event → List (String × String)
  | .materializing view keys => [("view", view), ("keys", Decimal.ofNat keys)]
  | .coercionFailed member key error | .elementCoercionFailed member key error =>
    [("member", member), ("key", key), ("error", error.message)]
  | .nestedViewDropped view error => [("view", view), ("error", error.message)]
  | .locating method owner | .located method owner _ => [("method", method), ("class", owner)]
  | .inaccessible method owner leaf => [("method", method), ("class", owner), ("leaf", leaf)]
  | .resolving category method | .invoking category method =>
    [("category", category), ("method", method)]
  | .hierarchyUnavailable method classId error =>
    [("method", method), ("class_id", Decimal.ofNat classId), ("error", error.message)]
  | .requiredMissing category method owner | .optionalMissing category method owner =>
    [("category", category), ("method", method), ("class", owner)]
  | .instanceUnavailable method => [("method", method)]
  | .invocationSkipped method error => [("method", method), ("error", error.message)]
  | .callbackFailed method owner error =>
    [("method", method), ("class", owner), ("error", error.message)]
  | .configLoaded version nestedViews =>
    [("version", version.text), ("nested_views", if nestedViews then "true" else "false")]

end Event
end ComponentBinding
