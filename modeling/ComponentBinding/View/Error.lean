import ComponentBinding.TypeResolver
import ComponentBinding.Number.Decimal

/-! Why a configuration value does not become a member value. -/
namespace ComponentBinding

inductive CoercionError where
  | incompatible (kind valueType value : String)
  | unknownSymbol (enumeration symbol : String)
  | unresolved (error : ResolveError)
  | resolverPanicked (name message : String)
  | depthExceeded (limit : Nat)
  deriving DecidableEq, Repr

def CoercionError.message : CoercionError → String
  | .incompatible kind valueType value =>
    "cannot convert " ++ valueType ++ " '" ++ value ++ "' to " ++ kind
  | .unknownSymbol enumeration symbol => "no symbol '" ++ symbol ++ "' in enum " ++ enumeration
  | .unresolved error => error.message
  | .resolverPanicked name message => "type resolver panicked on " ++ name ++ ": " ++ message
  | .depthExceeded limit => "view nesting exceeds " ++ Decimal.ofNat limit ++ " levels"

end ComponentBinding
