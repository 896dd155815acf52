import ComponentBinding.Class.Registry
import ComponentBinding.Log.Logged

/-! Search of a method over the ancestors of a class, the leaf first.
At each class the candidate signatures are tried in order. A class that declares candidates but none
that may be called ends the search: a method further up would be another one. Private methods count
at the leaf only, and package methods while every class so far shares the leaf's package. -/
namespace ComponentBinding

/-- A method and the class that declares it. -/
structure Located (σ : Type) where
  owner : Class σ
  method : Method σ

namespace Gate

variable {σ : Type}

/-- What may be called at a class, given its place. -/
def acceptance (gate : Gate) (atLeaf samePackage : Bool) : Acceptance where
  ownClass := gate.relaxedVisibility && atLeaf
  package := gate.relaxedVisibility && samePackage
  propertyMap := gate.returnProperties

def sharesPackage (c leaf : Class σ) : Bool := c.loader == leaf.loader && c.package == leaf.package

/-- The search from some class upwards. -/
def searchFrom (gate : Gate) (name : String) (candidates : List Signature) (leaf : Class σ)
    (atLeaf samePackage : Bool) :
    List (Class σ) → Logged (Except BindingError (Option (Located σ)))
  | [] => pure (.ok none)
  | c :: ancestors => do
    let samePackage := samePackage && sharesPackage c leaf
    let declared := candidates.filterMap (c.declared? name)
    .report (.locating name c.name)
    match declared.find? fun method =>
        (gate.acceptance atLeaf samePackage).accepts method.toDeclaration with
    | some method =>
      .report (.located name c.name method.parameters)
      return .ok (some ⟨c, method⟩)
    | none =>
      if declared.isEmpty then
        searchFrom gate name candidates leaf false samePackage ancestors
      else
        .report (.inaccessible name c.name leaf.name)
        return .error (.ambiguousAccess name c.name leaf.name)

/-- The method that a callback name stands for, if any class declares a candidate. -/
def locate (gate : Gate) (name : String) (ancestors : List (Class σ))
    (candidates : List Signature) : Logged (Except BindingError (Option (Located σ))) :=
  match ancestors with
  | [] => pure (.ok none)
  | leaf :: _ => searchFrom gate name candidates leaf true true ancestors

end Gate
end ComponentBinding
