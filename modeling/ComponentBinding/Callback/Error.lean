import ComponentBinding.Number.Decimal
import ComponentBinding.Panic

/-! Why a callback is not found or does not complete. -/
namespace ComponentBinding

/-- A failure inside a method body. -/
inductive BodyError where
  | failed (message : String)
  | panicked (message : String)
  | typeMismatch (expected got : String)
  deriving DecidableEq, Repr

/-- A parameter for which the call has no argument. -/
inductive ArgumentError where
  | serviceUnavailable (serviceId : UInt64)
  | unknownView (name : String)
  | unsupported (parameter : String)
  deriving DecidableEq, Repr

/-- A class without a list of ancestors. -/
inductive HierarchyError where
  | missingClass (id : Nat)
  | cycle (leaf : Nat)
  deriving DecidableEq, Repr

inductive BindingError where
  | ambiguousAccess (method owner leaf : String)
  | notFoundRequired (method leaf : String)
  | inBodyFailure (method : String) (source : BodyError)
  | argumentUnavailable (method : String) (source : ArgumentError)
  deriving DecidableEq, Repr

def BodyError.message : BodyError → String
  | .failed message => message
  | .panicked message => "callback panicked: " ++ message
  | .typeMismatch expected got => "Type mismatch: expected " ++ expected ++ ", got " ++ got

def ArgumentError.message : ArgumentError → String
  | .serviceUnavailable serviceId =>
    "service object for reference " ++ Decimal.ofNat serviceId.toNat ++ " is not available"
  | .unknownView name => "no view schema named " ++ name
  | .unsupported parameter => "parameter type " ++ parameter ++ " is not supported here"

def HierarchyError.message : HierarchyError → String
  | .missingClass id => "class " ++ Decimal.ofNat id ++ " is not registered"
  | .cycle leaf => "class hierarchy of " ++ Decimal.ofNat leaf ++ " contains a cycle"

def BindingError.message : BindingError → String
  | .ambiguousAccess method owner leaf =>
    "suitable but non-accessible method " ++ method ++ " found in class " ++ owner ++
      ", subclass of " ++ leaf
  | .notFoundRequired method leaf => method ++ " method [" ++ leaf ++ "] not found"
  | .inBodyFailure method source =>
    "the " ++ method ++ " method has thrown an exception: " ++ source.message
  | .argumentUnavailable method source =>
    "cannot prepare arguments for " ++ method ++ ": " ++ source.message

end ComponentBinding
