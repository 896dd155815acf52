/-! The categories of callbacks. -/
namespace ComponentBinding

/-- Moments in the life of a component. -/
inductive LifecyclePhase where
  | activate | deactivate | modified
  deriving DecidableEq, Repr

/-- Moments in the life of a bound service reference. -/
inductive ReferenceChange where
  | bind | unbind | updated
  deriving DecidableEq, Repr

def LifecyclePhase.name : LifecyclePhase → String
  | .activate => "activate"
  | .deactivate => "deactivate"
  | .modified => "modified"

def ReferenceChange.name : ReferenceChange → String
  | .bind => "bind"
  | .unbind => "unbind"
  | .updated => "updated"

end ComponentBinding
